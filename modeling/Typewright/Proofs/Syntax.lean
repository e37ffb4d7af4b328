import Typewright.Decimal.Numeral
import Typewright.Proofs.Lexeme
import Typewright.Proofs.Tree
import Typewright.Token.Basic

/-!
# The grammar

Which lists of tokens spell which trees, apart from how they are read.  The rules are those of a
grammar in layers:

```
program := (global | function)*
global := var TYPE IDENT ';'
function := func IDENT '(' [IDENT TYPE (',' IDENT TYPE)*] ')' TYPE block
block := '{' (var TYPE IDENT ';')* stmt* '}'
stmt := block | if | while expr block | for [expr] ';' [expr] ';' [expr] block
      | return [expr] ';' | break ';' | continue ';' | expr ';'
if := if expr block [else (block | if)]
expr := name '=' expr | logic
logic := logic (&& || ^) bit | bit
bit := bit (& |) rel | rel
rel := rel (< <= > >= == !=) add | add
add := add (+ -) mul | mul
mul := mul (* / %) unary | unary
unary := (- ! ~) unary | call
call := name '(' [expr (',' expr)*] ')' | primary
primary := NUMBER | STRING | true | false | IDENT | '(' expr ')'
name := IDENT | '(' name ')'
```

There is one inductive relation for each part, and one constructor for each rule.  The trees have no
places: every position in them is the default one, as it is after `Relabel.unplaced`.  Where the
nodes of a tree stand is a matter of its own.

## What the grammar leaves to others

The rules say nothing about the order in which tokens are read, about fuel, or about what is
reported of tokens that spell nothing.  That every list of tokens spells one tree at most is not a
part of the grammar either: it follows from the fact that a parser agrees with it.

Which numbers are expressions is decided by the functions that read numbers.  So that this rule can
be read without them, `Syntax.Atom.exists_iff_of_number` says what it comes to for the tokens of a
scanner.
-/

set_option autoImplicit false

namespace Typewright

/-! ## Repetition

Lists, lists with commas, and parts that may be left out, for any relation between tokens and trees.
The relations below are passed to these, so a rule for expressions has the arguments of a call
inside of `Commas` and `Optional`; that is why it needs an induction principle of its own. -/

namespace Syntax

variable {α : Type}

/-- Items one after the other. -/
inductive Many (R : List Token → α → Prop) : List Token → List α → Prop
  | nil : Many R [] []
  | cons {ts us : List Token} {x : α} {xs : List α} (h : R ts x) (hs : Many R us xs) :
      Many R (ts ++ us) (x :: xs)

/-- One item or more, with commas between them. -/
inductive Commas (R : List Token → α → Prop) : List Token → List α → Prop
  | one {ts : List Token} {x : α} (h : R ts x) : Commas R ts [x]
  | more {ts us : List Token} {comma : Token} {x : α} {xs : List α} (h : R ts x)
      (hcomma : comma.kind = .comma) (hs : Commas R us xs) : Commas R (ts ++ comma :: us) (x :: xs)

theorem Commas.imp {R S : List Token → α → Prop} (hRS : ∀ {ts x}, R ts x → S ts x)
    {ts : List Token} {xs : List α} (h : Commas R ts xs) : Commas S ts xs := by
  induction h with
  | one h => exact .one (hRS h)
  | more h hcomma _ ih => exact .more (hRS h) hcomma ih

/-- An item, or nothing in place of `missing`. -/
inductive Optional (R : List Token → α → Prop) (missing : α) : List Token → α → Prop
  | absent : Optional R missing [] missing
  | present {ts : List Token} {x : α} (h : R ts x) : Optional R missing ts x

/-! ## First tokens

What kind of token a tree can start with is what a parser looks at to choose a rule. -/

/-- There is a first token, of a kind that has the property. -/
def Starts (P : Kind → Prop) (ts : List Token) : Prop := ∃ t us, ts = t :: us ∧ P t.kind

section Starts

variable {P : Kind → Prop} {R : List Token → α → Prop} {ts : List Token} {xs : List α}

theorem Starts.cons {t : Token} (h : P t.kind) (ts : List Token) : Starts P (t :: ts) :=
  ⟨t, ts, rfl, h⟩

theorem Starts.append (h : Starts P ts) (us : List Token) : Starts P (ts ++ us) := by
  obtain ⟨t, ts, rfl, ht⟩ := h
  exact .cons ht (ts ++ us)

theorem Starts.imp {Q : Kind → Prop} (hPQ : ∀ {k}, P k → Q k) (h : Starts P ts) : Starts Q ts := by
  obtain ⟨t, ts, rfl, ht⟩ := h
  exact .cons (hPQ ht) ts

theorem Commas.starts (hR : ∀ {ts x}, R ts x → Starts P ts) (h : Commas R ts xs) : Starts P ts := by
  cases h with
  | one h => exact hR h
  | more h _ _ => exact (hR h).append _

theorem Many.nil_or_starts (hR : ∀ {ts x}, R ts x → Starts P ts) (h : Many R ts xs) :
    ts = [] ∨ Starts P ts := by
  cases h with
  | nil => exact .inl rfl
  | cons h _ => exact .inr ((hR h).append _)

end Starts

end Syntax

open Syntax

/-! ## Expressions

One relation with the layer as an index.  A layer either has the rule of its operators or goes on to
the next one inside. -/

/-- What is noted on a node without a place and without a type. -/
def Note.blank : Note := ⟨default, none⟩

namespace Syntax

/-- The layers of expressions, outermost first. -/
inductive Layer where
  | expr
  | logic
  | bit
  | rel
  | add
  | mul
  | unary
  | call
  | primary
deriving DecidableEq, Repr

namespace Layer

/-- The layer inside a layer. -/
def next? : Layer → Option Layer
  | expr => some logic
  | logic => some bit
  | bit => some rel
  | rel => some add
  | add => some mul
  | mul => some unary
  | unary => some call
  | call => some primary
  | primary => none

/-- The operators of a layer. -/
def operator? : Layer → Kind → Option BinaryOp
  | logic, .and => some .and
  | logic, .or => some .or
  | logic, .caret => some .xor
  | bit, .ampersand => some .bitAnd
  | bit, .pipe => some .bitOr
  | rel, .less => some .lt
  | rel, .lessEquals => some .le
  | rel, .greater => some .gt
  | rel, .greaterEquals => some .ge
  | rel, .equals => some .eq
  | rel, .notEquals => some .ne
  | add, .plus => some .add
  | add, .dash => some .sub
  | mul, .star => some .mul
  | mul, .slash => some .div
  | mul, .percent => some .mod
  | _, _ => none

end Layer

/-- An identifier in any number of parentheses, which can be assigned to or called. -/
inductive Name : List Token → String → Prop
  | identifier {t : Token} (ht : t.kind = .identifier) : Name [t] t.value
  | group {o c : Token} {ts : List Token} {x : String} (ho : o.kind = .openParen) (h : Name ts x)
      (hc : c.kind = .closeParen) : Name (o :: (ts ++ [c])) x

/-- A token that is an expression.  A number is a float if it has a point and an integer if it has
none, and there must be such a float or integer. -/
inductive Atom : Token → Expr → Prop
  | int {t : Token} {k : Int64} (ht : t.kind = .number) (hpoint : '.' ∉ t.value.toList)
      (hk : Numeral.integer? t.value = some k) : Atom t (.int .blank k)
  | float {t : Token} {x : Float} (ht : t.kind = .number) (hpoint : '.' ∈ t.value.toList)
      (hx : Numeral.decimal? t.value = some x) : Atom t (.float .blank x)
  | string {t : Token} (ht : t.kind = .string) : Atom t (.string .blank t.value)
  | true {t : Token} (ht : t.kind = .trueWord) : Atom t (.bool .blank .true)
  | false {t : Token} (ht : t.kind = .falseWord) : Atom t (.bool .blank .false)
  | var {t : Token} (ht : t.kind = .identifier) : Atom t (.var .blank t.value)

/-- **Which numbers are expressions.**  A number of a source is an expression if it has a point, and
without one exactly if it is at most `2 ^ 63 - 1`.  So the only numbers that the grammar refuses are
whole ones that do not fit. -/
theorem Atom.exists_iff_of_number {t : Token} (ht : t.kind = .number)
    (hnumber : Pattern.Number t.value.toList) : (∃ e, Atom t e) ↔
      '.' ∈ t.value.toList ∨ Numeral.value t.value.toList < Nat.pow 2 63 := by
  generalize hcs : t.value.toList = cs at hnumber ⊢
  have htext : String.ofList cs = t.value := by rw [← hcs, String.ofList_toList]
  cases hnumber with
  | whole hdigits =>
    -- digits only: an integer, if it is not too large
    have hpoint : '.' ∉ cs := fun hmem ↦ absurd (hdigits.2 _ hmem) (by decide)
    have hread := Numeral.integer?_of_digits hdigits.1 hdigits.2
    rw [htext] at hread
    constructor
    · rintro ⟨e, he⟩
      cases he with
      | int _ _ hk =>
        rw [hread, Option.ite_none_right_eq_some] at hk
        exact .inr hk.1
      | float _ hmem _ => exact .inl (hcs ▸ hmem)
      | string hkind | true hkind | false hkind | var hkind => cases ht.symm.trans hkind
    · rintro (hmem | hlt)
      · exact absurd hmem hpoint
      · exact ⟨_, .int ht (hcs ▸ hpoint) (hread.trans (if_pos hlt))⟩
  | @point l m hl hm =>
    -- with a point: a decimal, which is always read
    have hmem : '.' ∈ l ++ '.' :: m := List.mem_append_right l List.mem_cons_self
    have hread := Numeral.decimal?_of_digits hl.1 hl.2 hm.2
    rw [htext] at hread
    exact iff_of_true ⟨_, .float ht (hcs ▸ hmem) hread⟩ (.inl hmem)

end Syntax

/-- The kind of the token that spells the operator. -/
def UnaryOp.kind : UnaryOp → Kind
  | neg => .dash
  | not => .not
  | bitNot => .tilde

/-- The tokens spell the expression in a layer. -/
inductive Expr.Derives : Layer → List Token → Expr → Prop
  | inner {l l' : Layer} {ts : List Token} {e : Expr} (hl : l.next? = some l')
      (h : Derives l' ts e) : Derives l ts e
  | assign {ts us : List Token} {t : Token} {x : String} {e : Expr} (hx : Name ts x)
      (ht : t.kind = .assignment) (he : Derives .expr us e) :
      Derives .expr (ts ++ t :: us) (.assign .blank x e)
  | binary {l l' : Layer} {ts us : List Token} {t : Token} {e f : Expr} {op : BinaryOp}
      (hl : l.next? = some l') (he : Derives l ts e) (hop : l.operator? t.kind = some op)
      (hf : Derives l' us f) : Derives l (ts ++ t :: us) (.binary .blank e op f)
  | unary {ts : List Token} {t : Token} {e : Expr} {op : UnaryOp}
      (ht : t.kind = op.kind) (he : Derives .unary ts e) :
      Derives .unary (t :: ts) (.unary .blank op e)
  | call {ts us : List Token} {o c : Token} {f : String} {args : List Expr} (hf : Name ts f)
      (ho : o.kind = .openParen) (hargs : Optional (Commas (Derives .expr)) [] us args)
      (hc : c.kind = .closeParen) :
      Derives .call (ts ++ o :: (us ++ [c])) (.call .blank f (args.map (.actual .blank)))
  | atom {t : Token} {e : Expr} (h : Atom t e) : Derives .primary [t] e
  | group {o c : Token} {ts : List Token} {e : Expr} (ho : o.kind = .openParen)
      (he : Derives .expr ts e) (hc : c.kind = .closeParen) : Derives .primary (o :: (ts ++ [c])) e

/-- The rules for expressions give no more than what any relation holds of that obeys them. -/
@[elab_as_elim]
theorem Expr.Derives.induct {motive : Layer → List Token → Expr → Prop}
    (inner : ∀ {l l' : Layer} {ts : List Token} {e : Expr}, l.next? = some l' → motive l' ts e →
      motive l ts e)
    (assign : ∀ {ts us : List Token} {t : Token} {x : String} {e : Expr}, Name ts x →
      t.kind = .assignment → motive .expr us e → motive .expr (ts ++ t :: us) (.assign .blank x e))
    (binary : ∀ {l l' : Layer} {ts us : List Token} {t : Token} {e f : Expr} {op : BinaryOp},
      l.next? = some l' → motive l ts e → l.operator? t.kind = some op → motive l' us f →
      motive l (ts ++ t :: us) (.binary .blank e op f))
    (unary : ∀ {ts : List Token} {t : Token} {e : Expr} {op : UnaryOp},
      t.kind = op.kind → motive .unary ts e → motive .unary (t :: ts) (.unary .blank op e))
    (call : ∀ {ts us : List Token} {o c : Token} {f : String} {args : List Expr}, Name ts f →
      o.kind = .openParen → Optional (Commas (motive .expr)) [] us args → c.kind = .closeParen →
      motive .call (ts ++ o :: (us ++ [c])) (.call .blank f (args.map (.actual .blank))))
    (atom : ∀ {t : Token} {e : Expr}, Atom t e → motive .primary [t] e)
    (group : ∀ {o c : Token} {ts : List Token} {e : Expr}, o.kind = .openParen →
      motive .expr ts e → c.kind = .closeParen → motive .primary (o :: (ts ++ [c])) e)
    {l : Layer} {ts : List Token} {e : Expr} (h : Expr.Derives l ts e) : motive l ts e := by
  refine @Expr.Derives.rec (fun l ts e _ ↦ motive l ts e)
    (fun ts es _ ↦ Optional (Commas (motive .expr)) [] ts es)
    (fun ts es _ ↦ Commas (motive .expr) ts es)
    ?inner ?assign ?binary ?unary ?call ?atom ?group ?absent ?present ?one ?more l ts e h
  case inner => exact fun hl _ ih ↦ inner hl ih
  case assign => exact fun hx ht _ ih ↦ assign hx ht ih
  case binary => exact fun hl _ hop _ ihe ihf ↦ binary hl ihe hop ihf
  case unary => exact fun ht _ ih ↦ unary ht ih
  case call => exact fun hf ho _ hc ih ↦ call hf ho ih hc
  case atom => exact fun h ↦ atom h
  case group => exact fun ho _ hc ih ↦ group ho ih hc
  -- the arguments of a call, which may be missing
  case absent => exact .absent
  case present => exact fun _ ih ↦ .present ih
  case one => exact fun _ ih ↦ .one ih
  case more => exact fun _ hcomma _ ih ihs ↦ .more ih hcomma ihs

/-! ## Statements

Statements, `if`s and blocks are three relations that are defined together.  An `if` after an `else`
is put in a block with no variables, as the tree has it. -/

/-- The tokens spell the declaration of a global or a local variable. -/
inductive VarDecl.Derives : List Token → VarDecl → Prop
  | mk {var type name semicolon : Token} (hvar : var.kind = .varWord)
      (htype : type.kind = .identifier) (hname : name.kind = .identifier)
      (hsemicolon : semicolon.kind = .semicolon) :
      Derives [var, type, name, semicolon] ⟨name.value, type.value, default⟩

/-- An expression that may be left out. -/
def Expr.DerivesOptional (ts : List Token) (e : Expr) : Prop :=
  Optional (Expr.Derives .expr) (.absent .blank) ts e

/-- The kind of the reserved word of the statement. -/
def Jump.kind : Jump → Kind
  | leave => .breakWord
  | next => .continueWord

mutual
/-- The tokens spell the statement. -/
inductive Stmt.Derives : List Token → Stmt → Prop
  | block {ts : List Token} {b : Block} (hb : Block.Derives ts b) : Stmt.Derives ts (.block b)
  | cond {ts : List Token} {s : Stmt} (hs : Stmt.DerivesIf ts s) : Stmt.Derives ts s
  | whileLoop {t : Token} {ts us : List Token} {c : Expr} {b : Block} (ht : t.kind = .whileWord)
      (hc : Expr.Derives .expr ts c) (hb : Block.Derives us b) :
      Stmt.Derives (t :: (ts ++ us)) (.whileLoop default c b)
  | forLoop {t semicolon semicolon' : Token} {ts us vs ws : List Token} {i c s : Expr} {b : Block}
      (ht : t.kind = .forWord) (hi : Expr.DerivesOptional ts i)
      (hsemicolon : semicolon.kind = .semicolon) (hc : Expr.DerivesOptional us c)
      (hsemicolon' : semicolon'.kind = .semicolon) (hs : Expr.DerivesOptional vs s)
      (hb : Block.Derives ws b) :
      Stmt.Derives (t :: (ts ++ semicolon :: (us ++ semicolon' :: (vs ++ ws))))
        (.forLoop default i c s b)
  | ret {t semicolon : Token} {ts : List Token} {e : Expr} (ht : t.kind = .returnWord)
      (he : Expr.DerivesOptional ts e) (hsemicolon : semicolon.kind = .semicolon) :
      Stmt.Derives (t :: (ts ++ [semicolon])) (.ret default e)
  | jump {t semicolon : Token} {j : Jump} (ht : t.kind = j.kind)
      (hsemicolon : semicolon.kind = .semicolon) :
      Stmt.Derives [t, semicolon] (.jump default j)
  | expr {semicolon : Token} {ts : List Token} {e : Expr} (he : Expr.Derives .expr ts e)
      (hsemicolon : semicolon.kind = .semicolon) : Stmt.Derives (ts ++ [semicolon]) (.expr e)

/-- The tokens spell the statement, which is an `if`.  Another `if` after `else` stands in a block
of its own there. -/
inductive Stmt.DerivesIf : List Token → Stmt → Prop
  | noElse {t : Token} {ts us : List Token} {c : Expr} {a : Block} (ht : t.kind = .ifWord)
      (hc : Expr.Derives .expr ts c) (ha : Block.Derives us a) :
      Stmt.DerivesIf (t :: (ts ++ us)) (.cond default c a (.empty default))
  | elseBlock {t t' : Token} {ts us vs : List Token} {c : Expr} {a b : Block}
      (ht : t.kind = .ifWord) (hc : Expr.Derives .expr ts c) (ha : Block.Derives us a)
      (ht' : t'.kind = .elseWord) (hb : Block.Derives vs b) :
      Stmt.DerivesIf (t :: (ts ++ (us ++ t' :: vs))) (.cond default c a b)
  | elseIf {t t' : Token} {ts us vs : List Token} {c : Expr} {a : Block} {s : Stmt}
      (ht : t.kind = .ifWord) (hc : Expr.Derives .expr ts c) (ha : Block.Derives us a)
      (ht' : t'.kind = .elseWord) (hs : Stmt.DerivesIf vs s) :
      Stmt.DerivesIf (t :: (ts ++ (us ++ t' :: vs))) (.cond default c a ⟨default, [], [s]⟩)

/-- The tokens spell the block. -/
inductive Block.Derives : List Token → Block → Prop
  | mk {o c : Token} {ts us : List Token} {vars : List VarDecl} {body : List Stmt}
      (ho : o.kind = .openCurly) (hvars : Many VarDecl.Derives ts vars)
      (hbody : Many Stmt.Derives us body) (hc : c.kind = .closeCurly) :
      Block.Derives (o :: (ts ++ (us ++ [c]))) ⟨default, vars, body⟩
end

/-! ## Programs

Parameters are written with the name in front of the type, variables the other way round. -/

/-- The tokens spell the declaration of a parameter. -/
inductive VarDecl.DerivesParam : List Token → VarDecl → Prop
  | mk {name type : Token} (hname : name.kind = .identifier) (htype : type.kind = .identifier) :
      DerivesParam [name, type] ⟨name.value, type.value, default⟩

/-- The tokens spell the declaration of a function. -/
inductive FnDecl.Derives : List Token → FnDecl → Prop
  | mk {func name o c type : Token} {ts us : List Token} {params : List VarDecl} {body : Block}
      (hfunc : func.kind = .funcWord) (hname : name.kind = .identifier) (ho : o.kind = .openParen)
      (hparams : Optional (Commas VarDecl.DerivesParam) [] ts params) (hc : c.kind = .closeParen)
      (htype : type.kind = .identifier) (hbody : Block.Derives us body) :
      Derives (func :: name :: o :: (ts ++ c :: type :: us))
        ⟨name.value, params, type.value, body, default⟩

/-- The tokens spell the declaration. -/
inductive Decl.Derives : List Token → Decl → Prop
  | function {ts : List Token} {f : FnDecl} (hf : FnDecl.Derives ts f) : Derives ts (.function f)
  | global {ts : List Token} {v : VarDecl} (hv : VarDecl.Derives ts v) : Derives ts (.global v)

/-- The tokens spell the program. -/
def Program.Derives (ts : List Token) (p : Program) : Prop := Many Decl.Derives ts p.decls

end Typewright
