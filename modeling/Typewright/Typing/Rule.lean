import Typewright.Report.Issue
import Typewright.Tree.Operator
import Typewright.Typing.Registry
import Typewright.Typing.Scope

/-!
# Typing rules

The rule of an expression gives its type from the types of its parts, and the issues that it has
itself.  A part without a type is poisoned: something in it was reported already, and a rule that
needs its type stays silent and gives no type either.

The rule of a declaration or of a statement gives the issue that it has itself, if it has one.
-/

set_option autoImplicit false

namespace Typewright

/-- What a rule says about an expression. -/
structure Ruling where
  /-- The type of the node; a poisoned node has none. -/
  ty : Option Ty
  issues : List Issue := []
deriving DecidableEq, Repr, Inhabited

namespace Ruling

/-- The node has this type. -/
def accept (t : Ty) : Ruling := { ty := some t }

/-- The node is poisoned, because of `i`. -/
def refuse (i : Issue) : Ruling := { ty := none, issues := [i] }

/-- The node is poisoned by one of its parts. -/
def poison : Ruling := { ty := none }

/-- The node has type `t` if `ok`, and issue `i` otherwise. -/
def acceptIf (ok : Bool) (t : Ty) (i : Issue) : Ruling := if ok then accept t else refuse i

end Ruling

/-- The name of the function for output, which takes a format and any other arguments. -/
def printName : String := "printf"

namespace Rule

/-! ## Expressions

A rule sees the types of the parts and not the parts, so it cannot tell why a type is missing. -/

/-- A variable has the type that its name is bound to. -/
def var (name : String) : Option Binding → Ruling
  | none => .refuse (.variableNotDeclared name)
  | some b => { ty := b.ty? }

/-- An assignment to a variable that is bound to `b`.  It has the type of the variable, also when
the value is poisoned, and none when the value has another type. -/
def assign (b : Binding) (received : Option Ty) : Ruling :=
  match b.ty?, received with
  | none, _ => .poison
  | some expected, none => .accept expected
  | some expected, some received =>
    .acceptIf (received = expected) expected (.assignmentMismatch expected received)

/-- An operator between operands of these types. -/
def binary (op : BinaryOp) (left right : Ty) : Ruling :=
  match op with
  | .add | .sub | .mul | .div =>
    .acceptIf (left.isNumeric && right.isNumeric)
      (if left = .int ∧ right = .int then .int else .float) (.cannotCompare left right)
  | .mod => .acceptIf (left = .int ∧ right = .int) .int (.cannotMod left right)
  | .lt | .le | .gt | .ge =>
    .acceptIf (left.isNumeric && right.isNumeric) .bool (.cannotCompare left right)
  | .eq | .ne =>
    .acceptIf (left.isEquatable && right.isEquatable) .bool (.cannotCompare left right)
  | .and | .or | .xor =>
    .acceptIf (left = .bool ∧ right = .bool) .bool (.logicalOperands op.symbol left right)
  | .bitAnd | .bitOr =>
    .acceptIf (left = .int ∧ right = .int) .int (.bitwiseOperands op.symbol left right)

/-- An operator in front of an operand of this type. -/
def unary (op : UnaryOp) (operand : Ty) : Ruling :=
  match op with
  | .neg => .acceptIf operand.isNumeric operand (.noNegative operand)
  | .not => .acceptIf (operand = .bool) .bool (.logicalNot operand)
  | .bitNot => .acceptIf (operand = .int) .int (.bitwiseNot operand)

/-- A call of the function for output: the first argument is the format. -/
def print : List (Option Ty) → Ruling
  | [] => .refuse .printWithoutFormat
  | some received :: _ => .acceptIf (received = .string) .void (.printFormatType received)
  | none :: _ => .accept .void

/-- The arguments that have another type than their parameter; the first one has number `n`. -/
def mismatches (function : String) : Nat → List (Option Ty) → List (Option Ty) → List Issue
  | n, some expected :: params, some received :: args =>
    (if expected = received then [] else [.argumentMismatch function n expected received])
      ++ mismatches function (n + 1) params args
  | n, _ :: params, _ :: args => mismatches function (n + 1) params args
  | _, _, _ => []

/-- A call of a function with this signature.  It has the type of the result, also when an argument
is wrong. -/
def applied (s : Signature) (function : String) (args : List (Option Ty)) : Ruling where
  ty := s.result?
  issues :=
    if s.params.length = args.length then mismatches function 1 s.params args
    else [.wrongArgumentCount function s.params.length args.length]

/-- A call. -/
def call (r : Registry) (function : String) (args : List (Option Ty)) : Ruling :=
  if function = printName then print args
  else
    match r.get? function with
    | none => .refuse (.functionNotDeclared function)
    | some s => applied s function args

/-! ## Declarations

What an annotation names.  The issue of a variable that would be `Void` is an argument, since it is
worded differently for variables and for parameters. -/

/-- The annotation of a variable must name a type, and not `Void`, which is the issue `void`. -/
def variableIssue? (typeName : String) (void : Issue) : Option Issue :=
  match Ty.ofName? typeName with
  | none => some (.unknownType typeName)
  | some .void => some void
  | some _ => none

/-- The annotation of the result of a function must name a type. -/
def resultIssue? (function typeName : String) : Option Issue :=
  if typeName = printName then some (.returnTypeIsPrint function)
  else
    match Ty.ofName? typeName with
    | none => some (.unknownType typeName)
    | some _ => none

/-! ## Statements

A value that is poisoned is let pass, as in the rules for expressions. -/

/-- A condition that has a type must have type `bool`. -/
def predicateIssue? (statement : String) : Option Ty → Option Issue
  | none | some .bool => none
  | some _ => some (.predicateNotBool statement)

/-- A `return` in a function whose result has type `expected`, where `given` says whether it has a
value, and `received` is the type of the value.  Without an `expected` type anything goes. -/
def returnIssue? (function : String) (expected : Option Ty) (given : Bool) (received : Option Ty) :
    Option Issue :=
  match expected, given, received with
  | none, _, _ => none
  | some .void, true, _ => some (.returnValueInVoid function)
  | some .void, false, _ => none
  | some expected, false, _ => some (.missingReturnValue function expected)
  | some _, true, none => none
  | some expected, true, some received =>
    if received = expected then none else some (.returnMismatch function expected received)

/-- A jump needs a loop around it. -/
def jumpIssue? (loops : Nat) (j : Jump) : Option Issue :=
  if loops = 0 then some (.outsideLoop j.word) else none

end Rule
end Typewright
