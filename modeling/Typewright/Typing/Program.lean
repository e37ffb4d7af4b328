import Typewright.Typing.Stmt

/-!
# Checking programs

A program is checked in one pass: its functions are installed, the entry function is looked at,
the globals are bound in the outermost scope, and then every installed function is checked in that
scope.  A function that is not installed, because of its name or because the name is taken, is left
as it is.
-/

set_option autoImplicit false

namespace Typewright
namespace Check

/-- Installs a function, unless its name is that of the function for output or is taken. -/
def installFunction (f : FnDecl) (index : Nat) : Check Unit := do
  emit (.installingFunction f.name f.position)
  if f.name = printName then report .printRedefined f.position
  else if (← get).registry.contains f.name then
    report (.functionAlreadyDeclared f.name) f.position
  else modify fun c ↦ { c with registry := c.registry.install (.ofDecl f index) }

/-- Installs the functions among declarations; the first of them is declaration `index`. -/
def installFunctionsFrom : Nat → List Decl → Check Unit
  | _, [] => return
  | index, .function f :: ds => do
    installFunction f index
    installFunctionsFrom (index + 1) ds
  | index, .global _ :: ds => installFunctionsFrom (index + 1) ds

/-- Installs the functions of a program. -/
def installFunctions (p : Program) : Check Unit := do
  installFunctionsFrom 0 p.decls
  emit (.installedFunctions (← get).registry.size)

/-- The entry function must be there, without parameters and without a result. -/
def entry : Check Unit := do
  let c ← get
  match c.registry.get? c.entry with
  | none => emit (.reported { issue := .missingEntry c.entry })
  | some s =>
    unless s.params.isEmpty do report (.entryHasParameters c.entry) s.position
    unless s.returnType = Ty.void.name do report (.entryReturnType c.entry) s.position

/-- Checks and binds a global variable, unless its name is taken; gives whether it got a type. -/
def installGlobal (v : VarDecl) : Check Bool := do
  emit (.installingGlobal v.name v.position)
  if ← isTaken v.name then
    report (.globalAlreadyDeclared v.name) v.position
    return false
  else
    let ty ← variableType v (.voidVariable v.name)
    bindName v.name (.ofTy? ty)
    return ty.isSome

/-- Checks and binds global variables in order; gives how many got a type. -/
def installGlobalsOf : List VarDecl → Check Nat
  | [] => return 0
  | v :: vs => do
    let typed ← installGlobal v
    let rest ← installGlobalsOf vs
    return (if typed then 1 else 0) + rest

/-- Checks and binds the global variables of a program. -/
def installGlobals (p : Program) : Check Unit := do
  emit (.installedGlobals (← installGlobalsOf p.globals))

/-- Checks a declaration that is number `index` of the program. -/
def decl (index : Nat) : Decl → Check Decl
  | .global v => return .global v
  | .function f => do
    if (← get).registry.isInstalled f.name index then return .function (← function f)
    else
      emit (.skippingFunction f.name f.position)
      return .function f

/-- Checks declarations in order; the first of them is number `index` of the program. -/
def declsFrom : Nat → List Decl → Check (List Decl)
  | _, [] => return []
  | index, d :: ds => do
    let d ← decl index d
    let ds ← declsFrom (index + 1) ds
    return d :: ds

/-- Checks a program. -/
def program (p : Program) : Check Program := do
  installFunctions p
  entry
  enterScope
  installGlobals p
  let ds ← declsFrom 0 p.decls
  exitScope
  let c ← get
  if c.scopes.depth = 0 then
    emit (.finished c.diagnostics.length)
    return ⟨ds⟩
  else throw (.unbalancedScopes c.scopes.depth)

end Check

/-- Why a program is turned down. -/
inductive Rejection where
  /-- It has issues. -/
  | halted (ds : List Diagnostic)
  /-- It could not be checked. -/
  | fault (f : Fault)

/-- The rejection in words. -/
def Rejection.message : Rejection → String
  | halted _ => "Compilation halted due to static semantic errors."
  | fault f => f.fatal

namespace Program

/-- Checks a program from the state before a check: the program with the types written on it, and
the state after the check. -/
def check (p : Program) (entry : String) : Except Fault (Program × Checker) :=
  match (Check.program p).run (.start entry) with
  | .ok q c => .ok (q, c)
  | .error f _ => .error f

/-- Whether a program is accepted: any diagnostic halts it. -/
def verdict (p : Program) (entry : String) : Except Rejection Unit :=
  match p.check entry with
  | .error f => .error (.fault f)
  | .ok (_, c) => if c.diagnostics.isEmpty then .ok () else .error (.halted c.diagnostics)

end Program
end Typewright
