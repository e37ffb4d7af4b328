import Typewright.Token.Kind

/-!
# Operators

The operators between two expressions and in front of one.  Each has a symbol, a name in the dump of
a tree, and a token kind that stands for it.
-/

set_option autoImplicit false

namespace Typewright

/-- An operator between two expressions. -/
inductive BinaryOp where
  | add
  | sub
  | mul
  | div
  | mod
  | lt
  | le
  | gt
  | ge
  | eq
  | ne
  | and
  | or
  | xor
  | bitAnd
  | bitOr
deriving DecidableEq, Repr, Inhabited

/-- An operator in front of an expression. -/
inductive UnaryOp where
  | neg
  | not
  | bitNot
deriving DecidableEq, Repr, Inhabited

namespace BinaryOp

/-- The symbol of the operator. -/
def symbol : BinaryOp → String
  | add => "+"
  | sub => "-"
  | mul => "*"
  | div => "/"
  | mod => "%"
  | lt => "<"
  | le => "<="
  | gt => ">"
  | ge => ">="
  | eq => "=="
  | ne => "!="
  | and => "&&"
  | or => "||"
  | xor => "^"
  | bitAnd => "&"
  | bitOr => "|"

/-- The name of the operator in a dump. -/
def name : BinaryOp → String
  | add => "Add"
  | sub => "Sub"
  | mul => "Mul"
  | div => "Div"
  | mod => "Mod"
  | lt => "Lt"
  | le => "Le"
  | gt => "Gt"
  | ge => "Ge"
  | eq => "Eq"
  | ne => "Ne"
  | and => "And"
  | or => "Or"
  | xor => "Xor"
  | bitAnd => "BitAnd"
  | bitOr => "BitOr"

/-- The operator that a token of this kind stands for between two expressions. -/
def ofKind? : Kind → Option BinaryOp
  | .plus => some add
  | .dash => some sub
  | .star => some mul
  | .slash => some div
  | .percent => some mod
  | .less => some lt
  | .lessEquals => some le
  | .greater => some gt
  | .greaterEquals => some ge
  | .equals => some eq
  | .notEquals => some ne
  | .and => some and
  | .or => some or
  | .caret => some xor
  | .ampersand => some bitAnd
  | .pipe => some bitOr
  | _ => none

end BinaryOp

namespace UnaryOp

/-- The symbol of the operator. -/
def symbol : UnaryOp → String
  | neg => "-"
  | not => "!"
  | bitNot => "~"

/-- The name of the operator in a dump. -/
def name : UnaryOp → String
  | neg => "Neg"
  | not => "Not"
  | bitNot => "BitNot"

/-- The operator that a token of this kind stands for in front of an expression. -/
def ofKind? : Kind → Option UnaryOp
  | .dash => some neg
  | .not => some not
  | .tilde => some bitNot
  | _ => none

end UnaryOp
end Typewright
