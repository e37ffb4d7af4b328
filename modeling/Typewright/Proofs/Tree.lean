import Typewright.Tree.Program

/-!
# Walking over trees

Expressions hold lists of expressions, and statements and blocks hold each other, so the induction
principles that come with the types speak of lists as well.  Here are the ones that proofs use:

* `Expr.induct`, where the hypothesis for a call is about every argument, and which `induction` uses
  for an expression without being asked;
* `Stmt.induct`, which proves a property of all statements together with one of all blocks.  A block
  is no statement, and most properties have a form for each, so nearly every result about statements
  is such a pair.

`Expr.nodes` lists the nodes of an expression, the outer ones before the inner ones.  `Relabel`
changes the labels on a tree, which are the places, the types and the names, and keeps its shape;
`Relabel.untyped` and `Relabel.unplaced` drop one kind of label.  Two trees that are the same up to
a kind of label are compared by dropping it from both.
-/

set_option autoImplicit false

namespace Typewright

/-! ## Induction

The principles that Lean derives for nested types have a second motive for the lists, and it is
always the same one: that the property holds for all members.  Here it is filled in once. -/

/-- Induction over expressions. -/
@[elab_as_elim, induction_eliminator]
theorem Expr.induct {motive : Expr → Prop} (int : ∀ n k, motive (.int n k))
    (float : ∀ n x, motive (.float n x)) (string : ∀ n s, motive (.string n s))
    (bool : ∀ n b, motive (.bool n b)) (var : ∀ n x, motive (.var n x))
    (assign : ∀ n x e, motive e → motive (.assign n x e))
    (binary : ∀ n e op f, motive e → motive f → motive (.binary n e op f))
    (unary : ∀ n op e, motive e → motive (.unary n op e))
    (call : ∀ n f args, (∀ a ∈ args, motive a) → motive (.call n f args))
    (actual : ∀ n e, motive e → motive (.actual n e)) (absent : ∀ n, motive (.absent n))
    (e : Expr) : motive e := by
  refine @Expr.rec motive (fun es ↦ ∀ a ∈ es, motive a) int float string bool var assign binary
    unary call actual absent ?_ ?_ e
  -- the lists: no member, and one member more
  · intro a ha
    exact absurd ha (List.not_mem_nil)
  · intro e es he hes a ha
    rcases List.mem_cons.1 ha with rfl | ha
    · exact he
    · exact hes a ha

/-- Induction over statements and blocks. -/
theorem Stmt.induct {P : Stmt → Prop} {Q : Block → Prop} (block : ∀ b, Q b → P (.block b))
    (cond : ∀ p c a b, Q a → Q b → P (.cond p c a b))
    (whileLoop : ∀ p c b, Q b → P (.whileLoop p c b))
    (forLoop : ∀ p i c s b, Q b → P (.forLoop p i c s b)) (ret : ∀ p e, P (.ret p e))
    (jump : ∀ p j, P (.jump p j)) (expr : ∀ e, P (.expr e))
    (body : ∀ p vars ss, (∀ s ∈ ss, P s) → Q ⟨p, vars, ss⟩) : (∀ s, P s) ∧ ∀ b, Q b := by
  have hnil : ∀ s ∈ ([] : List Stmt), P s := by simp
  have hcons : ∀ (s : Stmt) (ss : List Stmt), P s → (∀ t ∈ ss, P t) → ∀ t ∈ s :: ss, P t := by
    intro s ss hs hss t ht
    rcases List.mem_cons.1 ht with rfl | ht
    · exact hs
    · exact hss t ht
  exact ⟨fun s ↦ @Stmt.rec P Q (fun ss ↦ ∀ s ∈ ss, P s) block cond whileLoop forLoop ret jump expr
      body hnil hcons s,
    fun b ↦ @Block.rec P Q (fun ss ↦ ∀ s ∈ ss, P s) block cond whileLoop forLoop ret jump expr
      body hnil hcons b⟩

/-! ## Nodes

A node of an expression is the expression itself or a node of one of its parts, each with all that
is below it.  What is written on a node, its place and its type, can be read off the node. -/

mutual
/-- The nodes of an expression: itself and the nodes of its parts. -/
def Expr.nodes : Expr → List Expr
  | .assign n x e => .assign n x e :: e.nodes
  | .binary n e op f => .binary n e op f :: (e.nodes ++ f.nodes)
  | .unary n op e => .unary n op e :: e.nodes
  | .call n f args => .call n f args :: Expr.nodesAll args
  | .actual n e => .actual n e :: e.nodes
  | e => [e]

/-- The nodes of expressions in order. -/
def Expr.nodesAll : List Expr → List Expr
  | [] => []
  | e :: es => e.nodes ++ Expr.nodesAll es
end

/-- The nodes of a list of expressions, without the recursion. -/
theorem Expr.nodesAll_eq_flatMap (es : List Expr) : nodesAll es = es.flatMap nodes := by
  induction es with
  | nil => simp [nodesAll]
  | cons e es ih => simp [nodesAll, ih]

/-! ## Labels

A label is what a tree carries besides its shape.  Names are among them: renaming the variables and
functions of a program is a `Relabel` as well.  Operators, literals and the kinds of statements are
the shape. -/

/-- What to write in place of the labels on a tree. -/
structure Relabel where
  note : Note → Note := id
  position : Position → Position := id
  name : String → String := id

namespace Relabel

/-- Drops the types. -/
def untyped : Relabel := { note := fun n ↦ { n with ty := none } }

/-- Drops the places. -/
def unplaced : Relabel where
  note := fun n ↦ { n with position := default }
  position := fun _ ↦ default

end Relabel

mutual
/-- The expression with other labels. -/
def Expr.relabel (r : Relabel) : Expr → Expr
  | .int n k => .int (r.note n) k
  | .float n x => .float (r.note n) x
  | .string n s => .string (r.note n) s
  | .bool n b => .bool (r.note n) b
  | .var n x => .var (r.note n) (r.name x)
  | .assign n x e => .assign (r.note n) (r.name x) (e.relabel r)
  | .binary n e op f => .binary (r.note n) (e.relabel r) op (f.relabel r)
  | .unary n op e => .unary (r.note n) op (e.relabel r)
  | .call n f args => .call (r.note n) (r.name f) (Expr.relabelAll r args)
  | .actual n e => .actual (r.note n) (e.relabel r)
  | .absent n => .absent (r.note n)

/-- The expressions with other labels. -/
def Expr.relabelAll (r : Relabel) : List Expr → List Expr
  | [] => []
  | e :: es => e.relabel r :: Expr.relabelAll r es
end

/-- Relabelling goes through a list of expressions one by one. -/
@[simp] theorem Expr.relabelAll_eq_map (r : Relabel) (es : List Expr) :
    relabelAll r es = es.map (relabel r) := by
  induction es with
  | nil => simp [relabelAll]
  | cons e es ih => simp [relabelAll, ih]

/-- The declaration with other labels. -/
def VarDecl.relabel (r : Relabel) (v : VarDecl) : VarDecl :=
  ⟨r.name v.name, r.name v.typeName, r.position v.position⟩

mutual
/-- The statement with other labels. -/
def Stmt.relabel (r : Relabel) : Stmt → Stmt
  | .block b => .block (b.relabel r)
  | .cond p c a b => .cond (r.position p) (c.relabel r) (a.relabel r) (b.relabel r)
  | .whileLoop p c b => .whileLoop (r.position p) (c.relabel r) (b.relabel r)
  | .forLoop p i c s b =>
    .forLoop (r.position p) (i.relabel r) (c.relabel r) (s.relabel r) (b.relabel r)
  | .ret p e => .ret (r.position p) (e.relabel r)
  | .jump p j => .jump (r.position p) j
  | .expr e => .expr (e.relabel r)

/-- The block with other labels. -/
def Block.relabel (r : Relabel) : Block → Block
  | ⟨p, vars, body⟩ => ⟨r.position p, vars.map (VarDecl.relabel r), Stmt.relabelAll r body⟩

/-- The statements with other labels. -/
def Stmt.relabelAll (r : Relabel) : List Stmt → List Stmt
  | [] => []
  | s :: ss => s.relabel r :: Stmt.relabelAll r ss
end

/-- The same for statements. -/
@[simp] theorem Stmt.relabelAll_eq_map (r : Relabel) (ss : List Stmt) :
    relabelAll r ss = ss.map (relabel r) := by
  induction ss with
  | nil => simp [relabelAll]
  | cons s ss ih => simp [relabelAll, ih]

/-- The function with other labels. -/
def FnDecl.relabel (r : Relabel) (f : FnDecl) : FnDecl where
  name := r.name f.name
  params := f.params.map (VarDecl.relabel r)
  returnType := r.name f.returnType
  body := f.body.relabel r
  position := r.position f.position

/-- The declaration with other labels. -/
def Decl.relabel (r : Relabel) : Decl → Decl
  | .function f => .function (f.relabel r)
  | .global v => .global (v.relabel r)

/-- The program with other labels. -/
def Program.relabel (r : Relabel) (p : Program) : Program := ⟨p.decls.map (Decl.relabel r)⟩

/-- The functions that a program declares, in order. -/
def Program.functions (p : Program) : List FnDecl := p.decls.filterMap Decl.function?

end Typewright
