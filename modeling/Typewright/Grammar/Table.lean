import Typewright.Token.Kind
import Typewright.Tree.Stmt

/-!
# Syntax tables

Which rule reads an expression or a statement is looked up by the kind of the current token.  A
`Table` says how an expression opens (`Table.opening`), how it goes on after a complete expression
(`Table.following`) and how strongly that binds (`Table.power`), and how a statement opens
(`Table.stmt`).  `Table.standard` is the table of the language; other tables are made from it, or
from `Table.empty`, by setting single entries.
-/

set_option autoImplicit false

namespace Typewright

/-- How strongly an operator holds its operands, weakest first. -/
inductive Power where
  | lowest
  | comma
  | assignment
  | logical
  | bitwise
  | relational
  | additive
  | multiplicative
  | unary
  | call
  | primary
deriving DecidableEq, Repr, Inhabited

namespace Power

/-- The place of a power, weakest first. -/
def rank : Power → Nat
  | lowest => 0
  | comma => 1
  | assignment => 2
  | logical => 3
  | bitwise => 4
  | relational => 5
  | additive => 6
  | multiplicative => 7
  | unary => 8
  | call => 9
  | primary => 10

instance : LT Power := ⟨fun p q ↦ p.rank < q.rank⟩

instance (p q : Power) : Decidable (p < q) := inferInstanceAs (Decidable (p.rank < q.rank))

end Power

/-- How an expression can open. -/
inductive Opening where
  /-- A literal or a variable. -/
  | primary
  /-- An operator in front of an expression. -/
  | unary
  /-- An expression in parentheses. -/
  | grouping
deriving DecidableEq, Repr, Inhabited

/-- How an expression can go on. -/
inductive Following where
  /-- An operator and a right operand. -/
  | binary
  /-- The value that is assigned to a variable. -/
  | assignment
  /-- The arguments of a call. -/
  | call
deriving DecidableEq, Repr, Inhabited

/-- How a statement can open. -/
inductive StmtRule where
  /-- Any statement, looked up in the table again. -/
  | any
  | block
  | cond
  | whileLoop
  | forLoop
  | ret
  | jump (jump : Jump)
deriving DecidableEq, Repr, Inhabited

/-- The rules of a grammar, by the kind of the current token. -/
structure Table where
  opening : Kind → Option Opening
  following : Kind → Option Following
  power : Kind → Power
  stmt : Kind → Option StmtRule

namespace Table

/-- The table without rules. -/
def empty : Table := ⟨fun _ ↦ none, fun _ ↦ none, fun _ ↦ .lowest, fun _ ↦ none⟩

/-- Sets how an expression opens at a token of kind `k`. -/
def setOpening (t : Table) (k : Kind) (rule : Opening) : Table :=
  { t with opening := fun j ↦ if j = k then some rule else t.opening j }

/-- Sets how an expression goes on at a token of kind `k`, and how strongly that binds. -/
def setFollowing (t : Table) (k : Kind) (p : Power) (rule : Following) : Table :=
  { t with
    following := fun j ↦ if j = k then some rule else t.following j
    power := fun j ↦ if j = k then p else t.power j }

/-- Sets how a statement opens at a token of kind `k`. -/
def setStmt (t : Table) (k : Kind) (rule : StmtRule) : Table :=
  { t with stmt := fun j ↦ if j = k then some rule else t.stmt j }

/-- The table of the language. -/
def standard : Table where
  opening
    | .number | .identifier | .string | .trueWord | .falseWord => some .primary
    | .dash | .not | .tilde => some .unary
    | .openParen => some .grouping
    | _ => none
  following
    | .assignment => some .assignment
    | .and | .or | .caret | .ampersand | .pipe => some .binary
    | .less | .lessEquals | .greater | .greaterEquals | .equals | .notEquals => some .binary
    | .plus | .dash | .star | .slash | .percent => some .binary
    | .openParen => some .call
    | _ => none
  power
    | .assignment => .assignment
    | .and | .or | .caret => .logical
    | .ampersand | .pipe => .bitwise
    | .less | .lessEquals | .greater | .greaterEquals | .equals | .notEquals => .relational
    | .plus | .dash => .additive
    | .star | .slash | .percent => .multiplicative
    | .openParen => .call
    | _ => .lowest
  stmt
    | .openCurly => some .block
    | .ifWord => some .cond
    | .whileWord => some .whileLoop
    | .forWord => some .forLoop
    | .returnWord => some .ret
    | .breakWord => some (.jump .leave)
    | .continueWord => some (.jump .next)
    | _ => none

end Table
end Typewright
