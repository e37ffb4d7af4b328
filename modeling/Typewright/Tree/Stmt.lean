import Typewright.Tree.Expr

/-!
# Statements and blocks

A block declares its local variables first and then lists its statements.  An `if` without an `else`
has an empty block there, and the clauses that a `for` or a `return` leaves out are
`Expr.absent`.
-/

set_option autoImplicit false

namespace Typewright

/-- The declaration of a variable: a global, a local of a block, or a parameter of a function. -/
structure VarDecl where
  name : String
  /-- The annotation, which need not name a type. -/
  typeName : String
  position : Position
deriving DecidableEq, Repr, Inhabited

/-- The statements that leave or repeat a loop. -/
inductive Jump where
  | leave
  | next
deriving DecidableEq, Repr, Inhabited

/-- The reserved word of the statement. -/
def Jump.word : Jump → String
  | leave => "break"
  | next => "continue"

mutual
/-- A statement. -/
inductive Stmt where
  | block (body : Block)
  | cond (position : Position) (condition : Expr) (thenBody elseBody : Block)
  | whileLoop (position : Position) (condition : Expr) (body : Block)
  | forLoop (position : Position) (init condition step : Expr) (body : Block)
  | ret (position : Position) (value : Expr)
  | jump (position : Position) (jump : Jump)
  | expr (expression : Expr)

/-- A block: its local variables and its statements. -/
structure Block where
  position : Position
  locals : List VarDecl
  body : List Stmt
end

/-- The block without variables and statements. -/
def Block.empty (p : Position) : Block := ⟨p, [], []⟩

/-- The place of a statement. -/
def Stmt.position : Stmt → Position
  | block b => b.position
  | cond p _ _ _ | whileLoop p _ _ | forLoop p _ _ _ _ | ret p _ | jump p _ => p
  | expr e => e.position

end Typewright
