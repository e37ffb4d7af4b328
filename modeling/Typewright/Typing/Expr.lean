import Typewright.Report.Event
import Typewright.Typing.Rule

/-!
# Checking expressions

`Expr.check` gives an expression with a type written on every node that was visited, the type of
the whole, and the log of the visit.  A poisoned node has `void` written on it.  The value of an
assignment to a variable that is not declared is not visited.
-/

set_option autoImplicit false

namespace Typewright

/-- What an expression is checked against. -/
structure Context where
  scopes : Scopes
  registry : Registry

/-- An expression that was checked. -/
structure Checked where
  /-- The expression with the types written on it. -/
  expr : Expr
  /-- Its type; a poisoned expression has none. -/
  ty : Option Ty
  log : List Event

/-- The issues of a node at the place `p`, as events. -/
def Ruling.events (r : Ruling) (p : Position) : List Event :=
  r.issues.map fun i ↦ .reported (.located i p)

/-- Writes what the rule of a node says on the node, after the visit of its parts. -/
def Checked.node (note : Note) (rebuild : Note → Expr) (inner : List Event) (r : Ruling) :
    Checked where
  expr := rebuild { note with ty := some (r.ty.getD .void) }
  ty := r.ty
  log := .checkingExpression note.position :: (inner ++ r.events note.position)

namespace Expr

mutual
/-- Checks an expression. -/
def check (Γ : Context) : Expr → Checked
  | int note n => .node note (int · n) [] (.accept .int)
  | float note x => .node note (float · x) [] (.accept .float)
  | string note s => .node note (string · s) [] (.accept .string)
  | bool note b => .node note (bool · b) [] (.accept .bool)
  | var note x => .node note (var · x) [] (Rule.var x (Γ.scopes.lookup x))
  | assign note x e =>
    match Γ.scopes.lookup x with
    | none => .node note (assign · x e) [] (.refuse (.targetNotDeclared x))
    | some b =>
      let v := check Γ e
      .node note (assign · x v.expr) v.log (Rule.assign b v.ty)
  | binary note e op f =>
    let l := check Γ e
    let r := check Γ f
    .node note (binary · l.expr op r.expr) (l.log ++ r.log)
      (match l.ty, r.ty with
      | some s, some t => Rule.binary op s t
      | _, _ => .poison)
  | unary note op e =>
    let v := check Γ e
    .node note (unary · op v.expr) v.log
      (match v.ty with
      | some t => Rule.unary op t
      | none => .poison)
  | call note f args =>
    let vs := checkAll Γ args
    .node note (call · f (vs.map (·.expr))) (vs.flatMap (·.log))
      (Rule.call Γ.registry f (vs.map (·.ty)))
  | actual note e =>
    let v := check Γ e
    .node note (actual · v.expr) v.log { ty := v.ty }
  | absent note => .node note absent [] (.accept .void)

/-- Checks the arguments of a call in order. -/
def checkAll (Γ : Context) : List Expr → List Checked
  | [] => []
  | e :: es => check Γ e :: checkAll Γ es
end

end Expr
end Typewright
