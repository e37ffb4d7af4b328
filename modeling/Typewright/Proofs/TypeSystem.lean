import Mathlib.Data.List.Forall2
import Typewright.Proofs.Tree
import Typewright.Typing.Rule

/-!
# The type system

The rules of the language, apart from how a program is checked.  `HasType Γ e t` derives the type of
an expression, `Stmt.WellFormed` and `Block.WellFormed` say what a statement and a block must meet,
and `Program.WellTyped` what a program must meet.  There is no poison here and no order of events:
an expression has a type or it has none.

The names in scope are an `Env`.  It lists declarations and not types, by the blocks around a place:
the local variables of the innermost block first, then those of the blocks around it, then the
parameters of the function, then the globals.

## What the rules leave out

A check has to go on after a mistake.  It binds the name of a variable whose annotation names no
type, it keeps the first of two declarations, it gives a call the type of its function although an
argument is wrong.  None of this is a rule of the language, and none of it is here.  A program with
such a mistake has no derivation, and that is all that the rules say about it.  What a check makes
of such programs is said elsewhere, by the log that it writes.

For the same reason the rules do not say which of two functions a name stands for, or which of two
variables of one block: `Program.WellTyped` and `VarDecl.WellFormed` ask for different names, and
then there is no choice.
-/

set_option autoImplicit false

namespace Typewright

/-! ## Names

A name stands for the declaration that is found first, from the innermost block outwards.  The
environment holds declarations as they stand in the text, so that what a variable means can be said
without a word about types. -/

/-- What names stand for at a place of a program. -/
structure Env where
  /-- The variables in scope, innermost first: those of each block around the place, then the
  parameters, then the globals. -/
  scopes : List (List VarDecl)
  /-- The functions of the program. -/
  functions : List FnDecl

namespace Env

/-- The declaration that a variable refers to. -/
def varDecl? (Γ : Env) (x : String) : Option VarDecl :=
  Γ.scopes.findSome? fun vs ↦ vs.find? (·.name = x)

/-- The function that a call refers to. -/
def fnDecl? (Γ : Env) (f : String) : Option FnDecl := Γ.functions.find? (·.name = f)

/-- The names inside a block, or inside a function, that declares these variables. -/
def enter (Γ : Env) (vs : List VarDecl) : Env := { Γ with scopes := vs :: Γ.scopes }

end Env

/-- The annotation of a variable names `t`, and `t` is the type of a value. -/
def VarDecl.HasType (v : VarDecl) (t : Ty) : Prop := v.typeName = t.name ∧ t ≠ .void

/-- Variables that are declared together have different names and types of values. -/
structure VarDecl.WellFormed (vs : List VarDecl) : Prop where
  distinct : (vs.map VarDecl.name).Nodup
  typed : ∀ v ∈ vs, ∃ t, v.HasType t

/-! ## Operators

The tables of the operators, one rule for each family.  The rules for arithmetic are two: integers
stay integers, and as soon as one operand is a float so is the result. -/

/-- Between operands of types `s` and `t`, the operator gives a value of type `r`. -/
inductive BinaryOp.Typing : BinaryOp → Ty → Ty → Ty → Prop
  | arithmeticInt {op : BinaryOp} (h : op ∈ [.add, .sub, .mul, .div]) : Typing op .int .int .int
  | arithmeticFloat {op : BinaryOp} {s t : Ty} (h : op ∈ [.add, .sub, .mul, .div])
      (hs : s ∈ [.int, .float]) (ht : t ∈ [.int, .float]) (hf : s = .float ∨ t = .float) :
      Typing op s t .float
  | mod : Typing .mod .int .int .int
  | order {op : BinaryOp} {s t : Ty} (h : op ∈ [.lt, .le, .gt, .ge])
      (hs : s ∈ [.int, .float]) (ht : t ∈ [.int, .float]) : Typing op s t .bool
  | equality {op : BinaryOp} {s t : Ty} (h : op ∈ [.eq, .ne])
      (hs : s ∈ [.int, .float, .bool]) (ht : t ∈ [.int, .float, .bool]) : Typing op s t .bool
  | logic {op : BinaryOp} (h : op ∈ [.and, .or, .xor]) : Typing op .bool .bool .bool
  | bitwise {op : BinaryOp} (h : op ∈ [.bitAnd, .bitOr]) : Typing op .int .int .int

/-- In front of an operand of type `s`, the operator gives a value of type `r`. -/
inductive UnaryOp.Typing : UnaryOp → Ty → Ty → Prop
  | negInt : Typing .neg .int .int
  | negFloat : Typing .neg .float .float
  | not : Typing .not .bool .bool
  | bitNot : Typing .bitNot .int .int

/-! ## Expressions

One rule for each kind of node.  A call has two, for the function for output and for all others.  An
argument is a node of its own in the tree, with the type of the expression in it, and so is an
expression that was left out, which has type `void`. -/

/-- The expression `e` has type `t`. -/
inductive HasType (Γ : Env) : Expr → Ty → Prop
  | int {n : Note} {k : Int64} : HasType Γ (.int n k) .int
  | float {n : Note} {x : Float} : HasType Γ (.float n x) .float
  | string {n : Note} {s : String} : HasType Γ (.string n s) .string
  | bool {n : Note} {b : Bool} : HasType Γ (.bool n b) .bool
  | var {n : Note} {x : String} {v : VarDecl} {t : Ty} (hx : Γ.varDecl? x = some v)
      (hv : v.HasType t) : HasType Γ (.var n x) t
  | assign {n : Note} {x : String} {e : Expr} {v : VarDecl} {t : Ty}
      (hx : Γ.varDecl? x = some v) (hv : v.HasType t) (he : HasType Γ e t) :
      HasType Γ (.assign n x e) t
  | binary {n : Note} {e f : Expr} {op : BinaryOp} {s t r : Ty} (he : HasType Γ e s)
      (hf : HasType Γ f t) (hop : op.Typing s t r) : HasType Γ (.binary n e op f) r
  | unary {n : Note} {e : Expr} {op : UnaryOp} {s r : Ty} (he : HasType Γ e s)
      (hop : op.Typing s r) : HasType Γ (.unary n op e) r
  /-- The function for output takes a format, which is a string, and anything that has a type. -/
  | print {n : Note} {a : Expr} {args : List Expr} {ts : List Ty} (ha : HasType Γ a .string)
      (hargs : List.Forall₂ (HasType Γ) args ts) : HasType Γ (.call n printName (a :: args)) .void
  /-- Every other function takes an argument of its type for every parameter. -/
  | call {n : Note} {f : String} {args : List Expr} {d : FnDecl} {ts : List Ty} {t : Ty}
      (hf : f ≠ printName) (hd : Γ.fnDecl? f = some d)
      (hparams : List.Forall₂ VarDecl.HasType d.params ts)
      (hargs : List.Forall₂ (HasType Γ) args ts) (ht : d.returnType = t.name) :
      HasType Γ (.call n f args) t
  | actual {n : Note} {e : Expr} {t : Ty} (he : HasType Γ e t) : HasType Γ (.actual n e) t
  | absent {n : Note} : HasType Γ (.absent n) .void

/-! ## Statements

A statement needs to know the type that the function around it returns and whether there is a loop
around it.  Only a jump looks at the loop, and only a `return` at the type. -/

mutual
/-- The statement may stand in a function with this type of result, inside a loop if `loop`. -/
inductive Stmt.WellFormed : Env → Ty → Bool → Stmt → Prop
  | block {Γ : Env} {ret : Ty} {loop : Bool} {b : Block} (hb : b.WellFormed Γ ret loop) :
      Stmt.WellFormed Γ ret loop (.block b)
  | cond {Γ : Env} {ret : Ty} {loop : Bool} {p : Position} {c : Expr} {a b : Block}
      (hc : HasType Γ c .bool) (ha : a.WellFormed Γ ret loop) (hb : b.WellFormed Γ ret loop) :
      Stmt.WellFormed Γ ret loop (.cond p c a b)
  | whileLoop {Γ : Env} {ret : Ty} {loop : Bool} {p : Position} {c : Expr} {b : Block}
      (hc : HasType Γ c .bool) (hb : b.WellFormed Γ ret true) :
      Stmt.WellFormed Γ ret loop (.whileLoop p c b)
  | forLoop {Γ : Env} {ret : Ty} {loop : Bool} {p : Position} {i c s : Expr} {b : Block} {t u : Ty}
      (hi : HasType Γ i t) (hc : c.isAbsent ∨ HasType Γ c .bool) (hs : HasType Γ s u)
      (hb : b.WellFormed Γ ret true) : Stmt.WellFormed Γ ret loop (.forLoop p i c s b)
  /-- A function without a result returns nothing. -/
  | retNothing {Γ : Env} {loop : Bool} {p : Position} {e : Expr} (he : e.isAbsent) :
      Stmt.WellFormed Γ .void loop (.ret p e)
  /-- Every other function returns a value of the type of its result. -/
  | retValue {Γ : Env} {ret : Ty} {loop : Bool} {p : Position} {e : Expr} (hr : ret ≠ .void)
      (ha : ¬ e.isAbsent) (he : HasType Γ e ret) : Stmt.WellFormed Γ ret loop (.ret p e)
  | jump {Γ : Env} {ret : Ty} {p : Position} {j : Jump} : Stmt.WellFormed Γ ret true (.jump p j)
  | expr {Γ : Env} {ret : Ty} {loop : Bool} {e : Expr} {t : Ty} (he : HasType Γ e t) :
      Stmt.WellFormed Γ ret loop (.expr e)

/-- The block may stand in a function with this type of result, inside a loop if `loop`. -/
inductive Block.WellFormed : Env → Ty → Bool → Block → Prop
  | mk {Γ : Env} {ret : Ty} {loop : Bool} {p : Position} {vars : List VarDecl} {body : List Stmt}
      (hvars : VarDecl.WellFormed vars)
      (hbody : ∀ s ∈ body, s.WellFormed (Γ.enter vars) ret loop) :
      Block.WellFormed Γ ret loop ⟨p, vars, body⟩
end

/-! ## Programs

A program is well typed if its functions and its globals can be told apart by their names, the entry
function is there with the right shape, and every function is well typed where all functions and all
globals are known.  So the order of the declarations plays no role. -/

/-- The function may stand where the names `Γ` are known. -/
structure FnDecl.WellTyped (Γ : Env) (f : FnDecl) : Prop where
  params : VarDecl.WellFormed f.params
  body : ∃ ret : Ty, f.returnType = ret.name ∧ f.body.WellFormed (Γ.enter f.params) ret false

/-- What names stand for outside of all functions. -/
def Program.env (p : Program) : Env := ⟨[p.globals], p.functions⟩

/-- The program obeys all rules, where `entry` is the function that a run starts with. -/
structure Program.WellTyped (p : Program) (entry : String) : Prop where
  distinct : (p.functions.map FnDecl.name).Nodup
  /-- The function for output is not declared again. -/
  reserved : ∀ f ∈ p.functions, f.name ≠ printName
  entry : ∃ f ∈ p.functions, f.name = entry ∧ f.params = [] ∧ f.returnType = Ty.void.name
  globals : VarDecl.WellFormed p.globals
  functions : ∀ f ∈ p.functions, f.WellTyped p.env

/-! ## The expressions of a program, with the names known there

For statements about every expression of a program: where it stands decides which names are known,
so the list pairs the two. -/

mutual
/-- The expressions of a statement, each with the names that are known there. -/
def Stmt.exprs (Γ : Env) : Stmt → List (Env × Expr)
  | .block b => b.exprs Γ
  | .cond _ c a b => (Γ, c) :: (a.exprs Γ ++ b.exprs Γ)
  | .whileLoop _ c b => (Γ, c) :: b.exprs Γ
  | .forLoop _ i c s b => (Γ, i) :: (Γ, c) :: (Γ, s) :: b.exprs Γ
  | .ret _ e => [(Γ, e)]
  | .jump _ _ => []
  | .expr e => [(Γ, e)]

/-- The expressions of a block, each with the names that are known there. -/
def Block.exprs (Γ : Env) : Block → List (Env × Expr)
  | ⟨_, vars, body⟩ => Stmt.exprsAll (Γ.enter vars) body

/-- The expressions of statements, each with the names that are known there. -/
def Stmt.exprsAll (Γ : Env) : List Stmt → List (Env × Expr)
  | [] => []
  | s :: ss => s.exprs Γ ++ Stmt.exprsAll Γ ss
end

/-- The type that is written on the node is the one that the rules give it, and the only one. -/
def Expr.CarriesType (Γ : Env) (e : Expr) : Prop :=
  ∃ t, e.ty = some t ∧ ∀ s, HasType Γ e s ↔ s = t

end Typewright
