import Typewright.Text.Position
import Typewright.Tree.Operator
import Typewright.Tree.Ty

/-!
# Expressions

Every node of an expression carries a `Note`: the place it was read from, and the type that checking
wrote on it, which is missing until then.  The arguments of a call are wrapped in `Expr.actual`
nodes, and `Expr.absent` stands where an expression was left out.
-/

set_option autoImplicit false

namespace Typewright

/-- What is noted on a node of an expression. -/
structure Note where
  position : Position
  /-- The type of the node, once it has been checked. -/
  ty : Option Ty := none
deriving DecidableEq, Repr, Inhabited

/-- An expression. -/
inductive Expr where
  | int (note : Note) (value : Int64)
  | float (note : Note) (value : Float)
  | string (note : Note) (text : String)
  | bool (note : Note) (value : Bool)
  /-- A variable. -/
  | var (note : Note) (name : String)
  /-- An assignment of the value to the variable `target`. -/
  | assign (note : Note) (target : String) (value : Expr)
  | binary (note : Note) (left : Expr) (op : BinaryOp) (right : Expr)
  | unary (note : Note) (op : UnaryOp) (operand : Expr)
  | call (note : Note) (callee : String) (actuals : List Expr)
  /-- An argument of a call. -/
  | actual (note : Note) (argument : Expr)
  /-- An expression that was left out. -/
  | absent (note : Note)
deriving Inhabited

namespace Expr

/-- What is noted on the top node. -/
def note : Expr → Note
  | int n _ | float n _ | string n _ | bool n _ | var n _ | assign n _ _ | binary n _ _ _
  | unary n _ _ | call n _ _ | actual n _ | absent n => n

/-- The place of the top node. -/
def position (e : Expr) : Position := e.note.position

/-- The type written on the top node. -/
def ty (e : Expr) : Option Ty := e.note.ty

/-- The expression was left out. -/
def isAbsent : Expr → Bool
  | absent _ => true
  | _ => false

end Expr
end Typewright
