import Typewright.Typing.Checker

/-!
# Checking statements and functions

Every block is checked in a scope of its own: first its local variables, then its statements.  The
parameters of a function are bound in a scope around its body.  `ret` is the type that a `return`
has to give; there is none where the annotation of the function names no type, and then any value
may be returned.
-/

set_option autoImplicit false

namespace Typewright
namespace Check

/-! ## Declarations inside a function

The annotation is looked at first and the name afterwards, so that a variable can be reported about
twice.  A name that is taken keeps its first binding. -/

/-- Binds a variable whose type was looked at before: its name must be free in the innermost scope,
or `duplicate` is reported and the first binding stays. -/
def declare (v : VarDecl) (ty : Option Ty) (duplicate : Issue) : Check Unit := do
  if ← isTaken v.name then report duplicate v.position
  else bindName v.name (.ofTy? ty)

/-- Checks and binds a local variable. -/
def declareLocal (v : VarDecl) : Check Unit := do
  emit (.declaringLocal v.name v.position)
  let ty ← variableType v (.voidVariable v.name)
  declare v ty (.localAlreadyDeclared v.name)

/-- Checks and binds a parameter. -/
def declareParam (function : String) (v : VarDecl) : Check Unit := do
  let ty ← variableType v (.voidParameter function v.name)
  declare v ty (.duplicateParameter function v.name)

/-- Checks and binds local variables in order. -/
def declareLocals : List VarDecl → Check Unit
  | [] => return
  | v :: vs => do
    declareLocal v
    declareLocals vs

/-- Checks and binds parameters in order. -/
def declareParams (function : String) : List VarDecl → Check Unit
  | [] => return
  | v :: vs => do
    declareParam function v
    declareParams function vs

/-! ## Statements

Statements are checked in order, each with all that was declared before.  Checking gives the
statement back with the types on its expressions. -/

/-- Checks the condition of a statement. -/
def predicate (statement : String) (p : Position) (e : Expr) : Check Expr := do
  let (e, ty) ← expr e
  reportIf (Rule.predicateIssue? statement ty) p
  return e

/-- Checks the condition of a `for`, which may be left out. -/
def loopCondition (p : Position) (e : Expr) : Check Expr :=
  if e.isAbsent then return (← expr e).1 else predicate "for" p e

/-- Checks a `return`. -/
def returning (ret : Option Ty) (p : Position) (value : Expr) : Check Expr := do
  let (e, ty) ← expr value
  reportIf (Rule.returnIssue? ((← get).function.getD "") ret (!value.isAbsent) ty) p
  return e

/-- Checks a jump. -/
def jumping (p : Position) (j : Jump) : Check Unit := do
  reportIf (Rule.jumpIssue? (← get).loopDepth j) p

/-- Makes the loops around the current statement one more, or one less. -/
def changeLoops (f : Nat → Nat) : Check Unit :=
  modify fun c ↦ { c with loopDepth := f c.loopDepth }

mutual
/-- Checks a statement. -/
def stmt (ret : Option Ty) : Stmt → Check Stmt
  | .block b => do
    emit (.checkingStatement b.position)
    return .block (← block ret b)
  | .cond p c a b => do
    emit (.checkingStatement p)
    let c ← predicate "if" p c
    enterScope
    let a ← block ret a
    let b ← block ret b
    exitScope
    return .cond p c a b
  | .whileLoop p c b => do
    emit (.checkingStatement p)
    let c ← predicate "while" p c
    changeLoops (· + 1)
    let b ← block ret b
    changeLoops (· - 1)
    return .whileLoop p c b
  | .forLoop p i c s b => do
    emit (.checkingStatement p)
    let (i, _) ← expr i
    let c ← loopCondition p c
    let (s, _) ← expr s
    changeLoops (· + 1)
    let b ← block ret b
    changeLoops (· - 1)
    return .forLoop p i c s b
  | .ret p e => do
    emit (.checkingStatement p)
    return .ret p (← returning ret p e)
  | .jump p j => do
    emit (.checkingStatement p)
    jumping p j
    return .jump p j
  | .expr e => do
    emit (.checkingStatement e.position)
    let (e, _) ← expr e
    return .expr e

/-- Checks a block in a scope of its own. -/
def block (ret : Option Ty) : Block → Check Block
  | ⟨p, vars, body⟩ => do
    enterScope
    declareLocals vars
    let body ← stmts ret body
    exitScope
    return ⟨p, vars, body⟩

/-- Checks statements in order. -/
def stmts (ret : Option Ty) : List Stmt → Check (List Stmt)
  | [] => return []
  | s :: ss => do
    let s ← stmt ret s
    let ss ← stmts ret ss
    return s :: ss
end

/-! ## Functions

The parameters have a scope of their own, around that of the body, so a local variable may have the
name of a parameter. -/

/-- Looks at the annotation of the result of a function and gives its type. -/
def returnType (f : FnDecl) : Check (Option Ty) := do
  reportIf (Rule.resultIssue? f.name f.returnType) f.position
  return Ty.ofName? f.returnType

/-- Checks a function: the annotation of its result, its parameters and its body. -/
def function (f : FnDecl) : Check FnDecl := do
  emit (.checkingFunction f.name f.position)
  let before ← get
  modify fun c ↦ { c with function := some f.name, loopDepth := 0 }
  let ret ← returnType f
  enterScope
  declareParams f.name f.params
  let body ← block ret f.body
  exitScope
  modify fun c ↦ { c with function := before.function, loopDepth := before.loopDepth }
  emit (.checkedFunction f.name ((← get).diagnostics.length - before.diagnostics.length))
  return { f with body }

end Check
end Typewright
