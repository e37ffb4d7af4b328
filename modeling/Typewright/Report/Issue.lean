import Typewright.Text.Quoted
import Typewright.Tree.Ty

/-!
# Issues

What can be wrong with a program, as causes: the first four stop the reading of a text, the others
are found by checking and do not stop it.  `Issue.name` and `Issue.message` are the only places that
know the wording.
-/

set_option autoImplicit false

namespace Typewright

/-- One thing that is wrong with a program. -/
inductive Issue where
  -- Reading
  | unrecognisedToken (token : String)
  | unexpectedToken (token : String)
  /-- A token that cannot stand here, with what was expected. -/
  | unexpectedTokenDetailed (token message : String)
  | malformedNumber (token : String)
  -- Declarations
  | printRedefined
  | functionAlreadyDeclared (function : String)
  | globalAlreadyDeclared (name : String)
  | localAlreadyDeclared (name : String)
  | duplicateParameter (function parameter : String)
  | voidParameter (function parameter : String)
  | voidVariable (name : String)
  | unknownType (typeName : String)
  | returnTypeIsPrint (function : String)
  -- The entry function
  | missingEntry (entry : String)
  | entryHasParameters (entry : String)
  | entryReturnType (entry : String)
  -- Names
  | variableNotDeclared (name : String)
  | targetNotDeclared (name : String)
  | functionNotDeclared (function : String)
  -- Expressions
  | assignmentMismatch (expected received : Ty)
  | cannotCompare (left right : Ty)
  | cannotMod (left right : Ty)
  | noNegative (operand : Ty)
  | logicalOperands (operator : String) (left right : Ty)
  | logicalNot (operand : Ty)
  | bitwiseOperands (operator : String) (left right : Ty)
  | bitwiseNot (operand : Ty)
  | printWithoutFormat
  | printFormatType (received : Ty)
  | wrongArgumentCount (function : String) (expected received : Nat)
  /-- The argument at `index`, counted from one, has the wrong type. -/
  | argumentMismatch (function : String) (index : Nat) (expected received : Ty)
  -- Statements
  | predicateNotBool (statement : String)
  | returnValueInVoid (function : String)
  | missingReturnValue (function : String) (expected : Ty)
  | returnMismatch (function : String) (expected received : Ty)
  | outsideLoop (statement : String)
deriving DecidableEq, Repr, Inhabited

namespace Issue

/-- The name of the kind of issue. -/
def name : Issue → String
  | unrecognisedToken _ => "UnrecognisedToken"
  | unexpectedToken _ => "UnexpectedToken"
  | unexpectedTokenDetailed _ _ => "UnexpectedTokenDetailed"
  | malformedNumber _ => "NumberParseError"
  | printRedefined => "PrintRedefined"
  | functionAlreadyDeclared _ => "FunctionAlreadyDeclared"
  | globalAlreadyDeclared _ => "VariableAlreadyDeclared"
  | localAlreadyDeclared _ => "LocalAlreadyDeclared"
  | duplicateParameter _ _ => "DuplicateParameter"
  | voidParameter _ _ => "VoidParameter"
  | voidVariable _ => "VoidVariable"
  | unknownType _ => "UnknownType"
  | returnTypeIsPrint _ => "ReturnTypeIsPrint"
  | missingEntry _ => "MissingEntryPoint"
  | entryHasParameters _ => "EntryPointHasParameters"
  | entryReturnType _ => "EntryPointReturnType"
  | variableNotDeclared _ => "VariableNotDeclared"
  | targetNotDeclared _ => "LeftValueNotDeclared"
  | functionNotDeclared _ => "FunctionNotDeclared"
  | assignmentMismatch _ _ => "AssignmentTypeMatchError"
  | cannotCompare _ _ => "CannotCompare"
  | cannotMod _ _ => "CannotMod"
  | noNegative _ => "NoNegative"
  | logicalOperands _ _ _ => "LogicalOperands"
  | logicalNot _ => "LogicalNot"
  | bitwiseOperands _ _ _ => "BitwiseOperands"
  | bitwiseNot _ => "BitwiseNot"
  | printWithoutFormat => "PrintWithoutFormat"
  | printFormatType _ => "PrintFormatType"
  | wrongArgumentCount _ _ _ => "WrongArgumentCount"
  | argumentMismatch _ _ _ _ => "ArgumentTypeMatchError"
  | predicateNotBool _ => "PredicateNotBool"
  | returnValueInVoid _ => "ReturnValueInVoidFunction"
  | missingReturnValue _ _ => "MissingReturnValue"
  | returnMismatch _ _ _ => "ReturnTypeMatchError"
  | outsideLoop _ => "OutsideLoop"

/-- The issue in words. -/
def message : Issue → String
  | unrecognisedToken token => "unrecognised token: " ++ Text.quoted token
  | unexpectedToken token => "unexpected token: " ++ Text.quoted token
  | unexpectedTokenDetailed token message =>
    "unexpected token (" ++ message ++ "): " ++ Text.quoted token
  | malformedNumber token => "error parsing number: " ++ Text.quoted token
  | printRedefined => "Function printf cannot be redefined."
  | functionAlreadyDeclared f => "Function " ++ f ++ " was previously defined."
  | globalAlreadyDeclared x => "var " ++ x ++ " was previously defined."
  | localAlreadyDeclared x => "var " ++ x ++ " was previously defined in this scope."
  | duplicateParameter f x =>
    "Function " ++ f ++ " 's parameter has a duplicate name " ++ x ++ "."
  | voidParameter f x => "Function " ++ f ++ " 's parameter " ++ x ++ " has an invalid type Void."
  | voidVariable x =>
    "var " ++ x ++ " cannot be of type Void. Void can just be used as return type."
  | unknownType typeName => "Unknown type " ++ typeName ++ "."
  | returnTypeIsPrint f => "Function " ++ f ++ " cannot have printf as its return type."
  | missingEntry entry => "Main function " ++ entry ++ " is not defined."
  | entryHasParameters entry => "Main function " ++ entry ++ " should not have any parameters."
  | entryReturnType entry => "Main function " ++ entry ++ " should have return type Void."
  | variableNotDeclared x => "object " ++ x ++ " has not been defined."
  | targetNotDeclared x => "Left value " ++ x ++ " has not been defined."
  | functionNotDeclared f => "Function " ++ f ++ " has not been defined."
  | assignmentMismatch expected received =>
    "Right value must have type " ++ expected.name ++ ", got " ++ received.name ++ "."
  | cannotCompare left right =>
    "Cannot compare a " ++ left.name ++ " and a " ++ right.name ++ "."
  | cannotMod left right => "Cannot mod a " ++ left.name ++ " and a " ++ right.name ++ "."
  | noNegative operand => "A " ++ operand.name ++ " doesn't have a negative."
  | logicalOperands operator left right =>
    "Cannot apply logical " ++ operator ++ " to a " ++ left.name ++ " and a " ++ right.name ++ "."
  | logicalNot operand => "Cannot apply logical ! to a " ++ operand.name ++ "."
  | bitwiseOperands operator left right =>
    "Cannot apply bitwise " ++ operator ++ " to a " ++ left.name ++ " and a " ++ right.name ++ "."
  | bitwiseNot operand => "Cannot apply bitwise ~ to a " ++ operand.name ++ "."
  | printWithoutFormat => "printf requires a format argument of type String."
  | printFormatType received =>
    "The first argument of printf should be String, got " ++ received.name ++ "."
  | wrongArgumentCount f expected received =>
    "Function " ++ f ++ " called with wrong number of arguments: expected " ++ toString expected
      ++ ", received " ++ toString received ++ "."
  | argumentMismatch f index expected received =>
    "Function " ++ f ++ ", the " ++ toString index ++ " parameter should be " ++ expected.name
      ++ " but provided a " ++ received.name ++ "."
  | predicateNotBool statement => "Predicate of '" ++ statement ++ "' does not have type Bool."
  | returnValueInVoid f =>
    "Function " ++ f ++ " has return type Void, so it cannot return a value."
  | missingReturnValue f expected =>
    "Function " ++ f ++ " should return a value of type " ++ expected.name ++ "."
  | returnMismatch f expected received =>
    "Function " ++ f ++ " should return " ++ expected.name ++ ", but returns " ++ received.name
      ++ "."
  | outsideLoop statement => "'" ++ statement ++ "' must be used inside a loop."

end Issue
end Typewright
