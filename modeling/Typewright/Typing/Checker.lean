import Typewright.Typing.Expr

/-!
# The state of a check

A `Checker` is what a check of a program keeps: the open scopes, the registry of functions, the
function and the number of loops around the current statement, and the log.  `Check α` is an action
on it that gives an `α`, or stops with a fault.

The number of loops is a natural number.  It goes up by one before the body of a loop and down by
one after it, and a function starts at zero and restores what was there.  So it never goes below
zero, where a subtraction of natural numbers would stop, and it is never more than the number of
loops of the program that stand inside each other: a counter of one machine word holds the same
number for every program that fits into memory.
-/

set_option autoImplicit false

namespace Typewright

/-- The state of a check. -/
structure Checker where
  scopes : Scopes
  registry : Registry
  /-- The name of the function that a run starts with. -/
  entry : String
  /-- The function whose body is checked. -/
  function : Option String
  /-- How many loops are around the current statement. -/
  loopDepth : Nat
  log : Array Event

namespace Checker

/-- The name of the function that a run starts with, unless another one is given. -/
def mainName : String := "main"

/-- The state before a check. -/
def start (entry : String) : Checker where
  scopes := .empty
  registry := .empty
  entry := entry
  function := none
  loopDepth := 0
  log := #[]

/-- The diagnostics so far, in order. -/
def diagnostics (c : Checker) : List Diagnostic := Event.diagnostics c.log.toList

/-- What expressions are checked against. -/
def context (c : Checker) : Context := ⟨c.scopes, c.registry⟩

end Checker

/-- An action on the state of a check. -/
abbrev Check := EStateM Fault Checker

namespace Check

/-- Logs events. -/
def emitAll (es : List Event) : Check Unit := modify fun c ↦ { c with log := c.log ++ es }

/-- Logs an event. -/
def emit (e : Event) : Check Unit := modify fun c ↦ { c with log := c.log.push e }

/-- Reports an issue at the place `p`. -/
def report (i : Issue) (p : Position) : Check Unit := emit (.reported (.located i p))

/-- Reports an issue at the place `p`, if there is one. -/
def reportIf (i : Option Issue) (p : Position) : Check Unit :=
  match i with
  | none => return
  | some i => report i p

/-- Changes the scopes, unless that is a fault. -/
def setScopes : Except Fault Scopes → Check Unit
  | .ok s => modify fun c ↦ { c with scopes := s }
  | .error f => throw f

/-- Opens a scope. -/
def enterScope : Check Unit := do
  modify fun c ↦ { c with scopes := c.scopes.enter }
  emit (.enteredScope (← get).scopes.depth)

/-- Closes the innermost scope. -/
def exitScope : Check Unit := do
  emit (.exitingScope (← get).scopes.depth)
  setScopes (← get).scopes.exit

/-- Binds a name in the innermost scope. -/
def bindName (name : String) (b : Binding) : Check Unit := do
  setScopes ((← get).scopes.bind name b)

/-- The innermost scope binds the name. -/
def isTaken (name : String) : Check Bool := return ((← get).scopes.probe name).isSome

/-- Checks an expression. -/
def expr (e : Expr) : Check (Expr × Option Ty) := do
  let v := e.check (← get).context
  emitAll v.log
  return (v.expr, v.ty)

/-- Looks at the annotation of a declared variable, where `void` is the issue of the annotation
`Void`, and gives the type of the variable. -/
def variableType (v : VarDecl) (void : Issue) : Check (Option Ty) := do
  reportIf (Rule.variableIssue? v.typeName void) v.position
  return Ty.ofVariable? v.typeName

end Check
end Typewright
