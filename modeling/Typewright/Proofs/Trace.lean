import Typewright.Typing.Program

/-!
# What a check does to its state

A check is written as a sequence of actions that open scopes, bind names, count loops, log events
and close the scopes again.  This file says what is left of that in the end: the tree with its types
(`Stmt.annotate`, `Block.annotate`, `FnDecl.annotate`) and the events that were logged
(`Stmt.events`, `Block.events`, `FnDecl.events`), both as plain functions of the tree and of the
`Site` where it stands.  The equations

* `Check.stmt_apply`, `Check.block_apply` and `Check.function_apply` for the parts of a program,
* `Program.check_eq` for the whole of it,

say that running the actions gives that tree, logs those events, and changes nothing else.  All that
is proved about checking is proved about these functions.

## Why two functions and not one

The tree and the events of a statement depend on different things.  For the tree it is enough to
know the scopes and the registry, which is a `Context`: neither the function around nor the loops
around have an influence on a type.  The events also depend on these two, and on how many scopes are
open, since an event says so.  Keeping them apart means that a result about types never has to speak
of the log, and the other way round.

## How the equations are proved

Every action is an equation of the form `m c = .ok a (c.move σ es)`: it gives `a`, ends at the site
`σ` and logs `es`.  The equations of the single actions are simp lemmas, and `Checker.move_move`
joins two of them in a row, so that the equation of a compound action is found by rewriting from the
front to the back.  Only loops and recursion need an induction of their own.  An action that needs
an open scope, such as binding a name, is stated for a site of the form `σ.push f`; that is the only
form in which it occurs, and there it cannot fail.

The last section draws the first consequence, `Check.scopes_balanced`: whatever is checked, the
state is afterwards what it was but for the log.
-/

set_option autoImplicit false

namespace Typewright

/-! ## Scopes with a given innermost one

A check works on the innermost scope and never looks at the others but to find a name.  So scopes
are taken apart into the innermost one and the rest, and what the operations do to `s.push f` is
immediate. -/

namespace Scopes

/-- The scopes with one more inside them. -/
def push (s : Scopes) (f : Scope) : Scopes := ⟨f :: s.frames⟩

/-- Opening a scope is pushing an empty one. -/
theorem enter_eq_push (s : Scopes) : s.enter = s.push [] := rfl

@[simp] theorem exit_push (s : Scopes) (f : Scope) : (s.push f).exit = .ok s := rfl

@[simp] theorem probe_push (s : Scopes) (f : Scope) (x : String) :
    (s.push f).probe x = f.lookup x := rfl

@[simp] theorem bind_push (s : Scopes) (f : Scope) (x : String) (b : Binding) :
    (s.push f).bind x b = .ok (s.push ((x, b) :: f)) := rfl

@[simp] theorem depth_push (s : Scopes) (f : Scope) : (s.push f).depth = s.depth + 1 := rfl

end Scopes

/-- A scope after one more declaration: a name that is taken keeps its binding. -/
def Scope.declare (f : Scope) (v : VarDecl) : Scope :=
  if (f.lookup v.name).isSome then f else (v.name, .ofTy? (Ty.ofVariable? v.typeName)) :: f

/-- A scope after declarations in order. -/
def Scope.declareAll (f : Scope) (vs : List VarDecl) : Scope := vs.foldl Scope.declare f

/-- What expressions are checked against, with one more scope inside. -/
def Context.push (Γ : Context) (f : Scope) : Context := { Γ with scopes := Γ.scopes.push f }

/-! ## Sites

The state of a check has two parts.  One decides what happens next: the scopes, the registry, the
function and the number of loops.  This is the `Site`.  The other is the log, which is only written.
`Checker.move` changes a state in both, and it is the only way in which states are changed below. -/

/-- Where a check stands: all of its state that decides what comes next. -/
structure Site where
  scopes : Scopes
  registry : Registry
  /-- The function whose body is checked. -/
  function : Option String
  /-- How many loops are around the current statement. -/
  loops : Nat

namespace Site

/-- What expressions are checked against. -/
def context (σ : Site) : Context := ⟨σ.scopes, σ.registry⟩

/-- The site with one more scope inside. -/
def push (σ : Site) (f : Scope) : Site := { σ with scopes := σ.scopes.push f }

/-- The site inside one more loop. -/
def inLoop (σ : Site) : Site := { σ with loops := σ.loops + 1 }

/-- The site inside a function, around its parameters. -/
def inFunction (σ : Site) (name : String) : Site := { σ with function := some name, loops := 0 }

@[simp] theorem context_push (σ : Site) (f : Scope) : (σ.push f).context = σ.context.push f := rfl

@[simp] theorem context_inLoop (σ : Site) : σ.inLoop.context = σ.context := rfl

@[simp] theorem context_inFunction (σ : Site) (name : String) :
    (σ.inFunction name).context = σ.context := rfl

@[simp] theorem scopes_inFunction (σ : Site) (name : String) :
    (σ.inFunction name).scopes = σ.scopes := rfl

@[simp] theorem scopes_push (σ : Site) (f : Scope) : (σ.push f).scopes = σ.scopes.push f := rfl

/-- The events of what is done in a scope of its own, which is opened before and closed after. -/
def inScope (σ : Site) (inner : List Event) : List Event :=
  .enteredScope (σ.scopes.depth + 1) :: (inner ++ [.exitingScope (σ.scopes.depth + 1)])

end Site

namespace Checker

/-- Where the check stands. -/
def site (c : Checker) : Site := ⟨c.scopes, c.registry, c.function, c.loopDepth⟩

/-- The state that stands at `σ` after more events.  Every state that a check of a part of a program
passes through has this form, where `c` is the state it started from. -/
def move (c : Checker) (σ : Site) (es : List Event) : Checker where
  scopes := σ.scopes
  registry := σ.registry
  entry := c.entry
  function := σ.function
  loopDepth := σ.loops
  log := c.log ++ es

@[simp] theorem site_move (c : Checker) (σ : Site) (es : List Event) : (c.move σ es).site = σ := rfl

@[simp] theorem scopes_move (c : Checker) (σ : Site) (es : List Event) :
    (c.move σ es).scopes = σ.scopes := rfl

@[simp] theorem registry_move (c : Checker) (σ : Site) (es : List Event) :
    (c.move σ es).registry = σ.registry := rfl

@[simp] theorem entry_move (c : Checker) (σ : Site) (es : List Event) :
    (c.move σ es).entry = c.entry := rfl

@[simp] theorem function_move (c : Checker) (σ : Site) (es : List Event) :
    (c.move σ es).function = σ.function := rfl

@[simp] theorem loopDepth_move (c : Checker) (σ : Site) (es : List Event) :
    (c.move σ es).loopDepth = σ.loops := rfl

/-- Two moves in a row are one: the second site counts, and the events are joined. -/
@[simp] theorem move_move (c : Checker) (σ τ : Site) (es fs : List Event) :
    (c.move σ es).move τ fs = c.move τ (es ++ fs) := by
  have h : c.log ++ es ++ fs = c.log ++ (es ++ fs) := by
    apply Array.ext'
    simp
  simp [move, h]

/-- A move to where the state stands already, with nothing logged, is no move. -/
@[simp] theorem move_site (c : Checker) : c.move c.site [] = c := by simp [move, site]

@[simp] theorem diagnostics_start (entry : String) : (start entry).diagnostics = [] := rfl

@[simp] theorem entry_start (entry : String) : (start entry).entry = entry := rfl

@[simp] theorem site_start (entry : String) : (start entry).site = ⟨.empty, .empty, none, 0⟩ := rfl

/-- Only the events of a move decide what diagnostics it adds. -/
@[simp] theorem diagnostics_move (c : Checker) (σ : Site) (es : List Event) :
    (c.move σ es).diagnostics = c.diagnostics ++ Event.diagnostics es := by
  simp [diagnostics, move]

end Checker

/-! ## The single actions

One equation for each action that the check is made of.  They are all simp lemmas: this is what the
equations of statements and functions are computed with. -/

/-- The diagnostics of a log, from its first event on. -/
theorem Event.diagnostics_cons (e : Event) (log : List Event) :
    diagnostics (e :: log) = e.diagnostic?.toList ++ diagnostics log := by
  cases h : e.diagnostic? <;> simp [diagnostics, h]

/-- The report of an issue at the place `p`, if there is one. -/
def reports (i : Option Issue) (p : Position) : List Event :=
  i.toList.map fun i ↦ .reported (.located i p)

@[simp] theorem reports_none (p : Position) : reports none p = [] := rfl

@[simp] theorem reports_some (i : Issue) (p : Position) :
    reports (some i) p = [.reported (.located i p)] := rfl

namespace Check

variable {α β : Type}

/-- Actions in a row.  The second one is run in the state that the first one leaves, unless that is
a fault. -/
@[simp] theorem bind_apply (m : Check α) (f : α → Check β) (c : Checker) :
    (m >>= f) c = match m c with
      | .ok a d => f a d
      | .error e d => .error e d := by
  cases h : m c <;> simp [bind, EStateM.bind, h]

@[simp] theorem map_apply (f : α → β) (m : Check α) (c : Checker) :
    (f <$> m) c = match m c with
      | .ok a d => .ok (f a) d
      | .error e d => .error e d := by
  cases h : m c <;> simp [Functor.map, EStateM.map, h]

@[simp] theorem pure_apply (a : α) (c : Checker) : (pure a : Check α) c = .ok a c := rfl

@[simp] theorem get_apply (c : Checker) : (get : Check Checker) c = .ok c c := rfl

theorem modify_apply (f : Checker → Checker) (c : Checker) :
    (modify f : Check PUnit) c = .ok ⟨⟩ (f c) := rfl

@[simp] theorem emitAll_apply (es : List Event) (c : Checker) :
    emitAll es c = .ok () (c.move c.site es) := rfl

@[simp] theorem emit_apply (e : Event) (c : Checker) : emit e c = .ok () (c.move c.site [e]) := by
  simp [emit, modify_apply, Checker.move, Checker.site]

@[simp] theorem report_apply (i : Issue) (p : Position) (c : Checker) :
    report i p c = .ok () (c.move c.site [.reported (.located i p)]) := by
  rw [report, emit_apply]

@[simp] theorem reportIf_apply (i : Option Issue) (p : Position) (c : Checker) :
    reportIf i p c = .ok () (c.move c.site (reports i p)) := by
  cases i with
  | none => simp [reportIf, Checker.move, Checker.site]
  | some i => simp [reportIf]

@[simp] theorem enterScope_apply (c : Checker) :
    enterScope c = .ok () (c.move (c.site.push []) [.enteredScope (c.site.scopes.depth + 1)]) := by
  simp [enterScope, modify_apply, Checker.move, Checker.site, Site.push, Scopes.enter_eq_push]

/-- Closing a scope forgets what it bound. -/
@[simp] theorem exitScope_move (c : Checker) (σ : Site) (f : Scope) (es : List Event) :
    exitScope (c.move (σ.push f) es)
      = .ok () (c.move σ (es ++ [.exitingScope (σ.scopes.depth + 1)])) := by
  simp [exitScope, setScopes, modify_apply]
  simp [Checker.move, Site.push]

/-- Binding a name changes the innermost scope only. -/
@[simp] theorem bindName_move (c : Checker) (σ : Site) (f : Scope) (es : List Event) (x : String)
    (b : Binding) :
    bindName x b (c.move (σ.push f) es) = .ok () (c.move (σ.push ((x, b) :: f)) es) := by
  simp [bindName, setScopes, modify_apply]
  simp [Checker.move, Site.push]

/-- A name is taken if the innermost scope binds it, whatever the scopes around it bind. -/
@[simp] theorem isTaken_move (c : Checker) (σ : Site) (f : Scope) (es : List Event) (x : String) :
    isTaken x (c.move (σ.push f) es) = .ok (f.lookup x).isSome (c.move (σ.push f) es) := by
  simp [isTaken]

/-- Checking an expression does not move the site; this is why it can be a function of the
context. -/
@[simp] theorem expr_apply (e : Expr) (c : Checker) :
    expr e c = .ok ((e.check c.site.context).expr, (e.check c.site.context).ty)
      (c.move c.site (e.check c.site.context).log) := by
  simp [expr, Checker.context, Site.context, Checker.site]

@[simp] theorem enterLoop_apply (c : Checker) :
    changeLoops (· + 1) c = .ok () (c.move c.site.inLoop []) := by
  simp [changeLoops, modify_apply, Checker.move, Checker.site, Site.inLoop]

/-- A loop is left at the site where it was entered.  The subtraction is exact, since the count was
made greater by one before. -/
@[simp] theorem leaveLoop_move (c : Checker) (σ : Site) (es : List Event) :
    changeLoops (· - 1) (c.move σ.inLoop es) = .ok () (c.move σ es) := by
  simp [changeLoops, modify_apply, Checker.move, Site.inLoop]

end Check

/-! ## Declarations inside a function

Parameters and local variables are declared by two loops that differ in what they log and in the
wording of their issues.  Both declare every variable in the same way, which is
`Check.declare_move`.  Globals are not among them: there a name that is taken is not looked at any
further. -/

/-- The events of a declaration in the scope `f`, where `void` is the issue of the annotation `Void`
and `duplicate` that of a name which is taken. -/
def Scope.declareEvents (f : Scope) (v : VarDecl) (void duplicate : Issue) : List Event :=
  reports (Rule.variableIssue? v.typeName void) v.position
    ++ reports (if (f.lookup v.name).isSome then some duplicate else none) v.position

/-- The events of the local variables of a block, in the scope `f`. -/
def Scope.localEvents : Scope → List VarDecl → List Event
  | _, [] => []
  | f, v :: vs =>
    .declaringLocal v.name v.position
      :: (f.declareEvents v (.voidVariable v.name) (.localAlreadyDeclared v.name)
        ++ localEvents (f.declare v) vs)

/-- The events of the parameters of a function, in the scope `f`. -/
def Scope.paramEvents (function : String) : Scope → List VarDecl → List Event
  | _, [] => []
  | f, v :: vs =>
    f.declareEvents v (.voidParameter function v.name) (.duplicateParameter function v.name)
      ++ paramEvents function (f.declare v) vs

namespace Check

/-- Declaring a variable: its annotation is looked at, and its name is bound unless it is taken. -/
theorem declare_move (c : Checker) (σ : Site) (f : Scope) (es : List Event) (v : VarDecl)
    (void duplicate : Issue) :
    (do let ty ← variableType v void; declare v ty duplicate : Check Unit) (c.move (σ.push f) es)
      = .ok () (c.move (σ.push (f.declare v)) (es ++ f.declareEvents v void duplicate)) := by
  cases ht : f.lookup v.name <;>
    simp [variableType, declare, ht, Scope.declare, Scope.declareEvents]

/-- The local variables of a block are declared in the scope of the block, in order. -/
@[simp] theorem declareLocals_move (σ : Site) (vs : List VarDecl) :
    ∀ (c : Checker) (f : Scope) (es : List Event), declareLocals vs (c.move (σ.push f) es)
      = .ok () (c.move (σ.push (f.declareAll vs)) (es ++ f.localEvents vs)) := by
  induction vs with
  | nil =>
    intro c f es
    simp [declareLocals, Scope.declareAll, Scope.localEvents]
  | cons v vs ih =>
    intro c f es
    have hv := declare_move c σ f (es ++ [.declaringLocal v.name v.position]) v
      (.voidVariable v.name) (.localAlreadyDeclared v.name)
    rw [declareLocals, bind_apply, declareLocal, bind_apply, emit_apply, Checker.site_move,
      Checker.move_move]
    simp only [hv, ih]
    simp [Scope.localEvents, Scope.declareAll]

/-- The same for the parameters of a function. -/
@[simp] theorem declareParams_move (σ : Site) (function : String) (vs : List VarDecl) :
    ∀ (c : Checker) (f : Scope) (es : List Event),
      declareParams function vs (c.move (σ.push f) es)
        = .ok () (c.move (σ.push (f.declareAll vs)) (es ++ f.paramEvents function vs)) := by
  induction vs with
  | nil =>
    intro c f es
    simp [declareParams, Scope.declareAll, Scope.paramEvents]
  | cons v vs ih =>
    intro c f es
    rw [declareParams, bind_apply, declareParam, declare_move]
    simp [ih, Scope.paramEvents, Scope.declareAll]

end Check

/-! ## Statements

The two functions of a statement, and the proof that checking it comes to them.  The recursion of
`Stmt.annotate` and of `Stmt.events` is that of the check itself, so the three equations are proved
by one mutual recursion over statements, blocks and lists of statements. -/

/-- The events of a condition. -/
def Expr.predicateEvents (Γ : Context) (statement : String) (p : Position) (e : Expr) :
    List Event :=
  (e.check Γ).log ++ reports (Rule.predicateIssue? statement (e.check Γ).ty) p

/-- The events of the condition of a `for`, which may be left out. -/
def Expr.loopConditionEvents (Γ : Context) (p : Position) (e : Expr) : List Event :=
  if e.isAbsent then (e.check Γ).log else e.predicateEvents Γ "for" p

/-- The events of a `return` with this value. -/
def Expr.returnEvents (σ : Site) (ret : Option Ty) (p : Position) (e : Expr) : List Event :=
  (e.check σ.context).log
    ++ reports
      (Rule.returnIssue? (σ.function.getD "") ret (!e.isAbsent) (e.check σ.context).ty) p

mutual
/-- The statement with the types written on its expressions. -/
def Stmt.annotate (Γ : Context) : Stmt → Stmt
  | .block b => .block (b.annotate Γ)
  | .cond p c a b =>
    .cond p (c.check Γ).expr (a.annotate (Γ.push [])) (b.annotate (Γ.push []))
  | .whileLoop p c b => .whileLoop p (c.check Γ).expr (b.annotate Γ)
  | .forLoop p i c s b =>
    .forLoop p (i.check Γ).expr (c.check Γ).expr (s.check Γ).expr (b.annotate Γ)
  | .ret p e => .ret p (e.check Γ).expr
  | .jump p j => .jump p j
  | .expr e => .expr (e.check Γ).expr

/-- The block with the types written on its expressions. -/
def Block.annotate (Γ : Context) : Block → Block
  | ⟨p, vars, body⟩ => ⟨p, vars, Stmt.annotateAll (Γ.push (Scope.declareAll [] vars)) body⟩

/-- The statements with the types written on their expressions. -/
def Stmt.annotateAll (Γ : Context) : List Stmt → List Stmt
  | [] => []
  | s :: ss => s.annotate Γ :: Stmt.annotateAll Γ ss
end

mutual
/-- The events of a statement. -/
def Stmt.events (σ : Site) (ret : Option Ty) : Stmt → List Event
  | .block b => .checkingStatement b.position :: b.events σ ret
  | .cond p c a b =>
    .checkingStatement p :: (c.predicateEvents σ.context "if" p
      ++ σ.inScope (a.events (σ.push []) ret ++ b.events (σ.push []) ret))
  | .whileLoop p c b =>
    .checkingStatement p :: (c.predicateEvents σ.context "while" p ++ b.events σ.inLoop ret)
  | .forLoop p i c s b =>
    .checkingStatement p :: ((i.check σ.context).log ++ c.loopConditionEvents σ.context p
      ++ (s.check σ.context).log ++ b.events σ.inLoop ret)
  | .ret p e => .checkingStatement p :: e.returnEvents σ ret p
  | .jump p j => .checkingStatement p :: reports (Rule.jumpIssue? σ.loops j) p
  | .expr e => .checkingStatement e.position :: (e.check σ.context).log

/-- The events of a block. -/
def Block.events (σ : Site) (ret : Option Ty) : Block → List Event
  | ⟨_, vars, body⟩ =>
    σ.inScope (Scope.localEvents [] vars
      ++ Stmt.eventsAll (σ.push (Scope.declareAll [] vars)) ret body)

/-- The events of statements in order. -/
def Stmt.eventsAll (σ : Site) (ret : Option Ty) : List Stmt → List Event
  | [] => []
  | s :: ss => s.events σ ret ++ Stmt.eventsAll σ ret ss
end

namespace Check

/-- A condition is checked as an expression, and then its type is looked at. -/
@[simp] theorem predicate_apply (statement : String) (p : Position) (e : Expr) (c : Checker) :
    predicate statement p e c = .ok (e.check c.site.context).expr
      (c.move c.site (e.predicateEvents c.site.context statement p)) := by
  simp [predicate, Expr.predicateEvents]

@[simp] theorem loopCondition_apply (p : Position) (e : Expr) (c : Checker) :
    loopCondition p e c = .ok (e.check c.site.context).expr
      (c.move c.site (e.loopConditionEvents c.site.context p)) := by
  cases h : e.isAbsent <;> simp [loopCondition, Expr.loopConditionEvents, h]

@[simp] theorem returning_apply (ret : Option Ty) (p : Position) (e : Expr) (c : Checker) :
    returning ret p e c = .ok (e.check c.site.context).expr
      (c.move c.site (e.returnEvents c.site ret p)) := by
  simp [returning, Expr.returnEvents]

@[simp] theorem jumping_apply (p : Position) (j : Jump) (c : Checker) :
    jumping p j c = .ok () (c.move c.site (reports (Rule.jumpIssue? c.site.loops j) p)) := by
  simp [jumping, Checker.site]

mutual
/-- **A statement leaves the site as it was.**  Checking it writes the types on it and logs its
events. -/
theorem stmt_apply (ret : Option Ty) : ∀ (s : Stmt) (c : Checker),
    stmt ret s c = .ok (s.annotate c.site.context) (c.move c.site (s.events c.site ret))
  | .block b, c => by
    simp [stmt, block_apply ret b, Stmt.annotate, Stmt.events]
  | .cond p e a b, c => by
    -- both branches stand in one more scope, which is around the two of them and not around each
    simp [stmt, block_apply ret a, block_apply ret b, Stmt.annotate, Stmt.events, Site.inScope]
  | .whileLoop p e b, c => by
    simp [stmt, block_apply ret b, Stmt.annotate, Stmt.events]
  | .forLoop p i e s b, c => by
    simp [stmt, block_apply ret b, Stmt.annotate, Stmt.events]
  | .ret p e, c => by simp [stmt, Stmt.annotate, Stmt.events]
  | .jump p j, c => by simp [stmt, Stmt.annotate, Stmt.events]
  | .expr e, c => by simp [stmt, Stmt.annotate, Stmt.events]

/-- **A block leaves the site as it was**, and the scope that it opens is closed again. -/
theorem block_apply (ret : Option Ty) : ∀ (b : Block) (c : Checker),
    block ret b c = .ok (b.annotate c.site.context) (c.move c.site (b.events c.site ret))
  | ⟨p, vars, body⟩, c => by
    simp [block, stmts_apply ret body, Block.annotate, Block.events, Site.inScope]

/-- Statements in a row are all checked at the same site. -/
theorem stmts_apply (ret : Option Ty) : ∀ (ss : List Stmt) (c : Checker),
    stmts ret ss c
      = .ok (Stmt.annotateAll c.site.context ss) (c.move c.site (Stmt.eventsAll c.site ret ss))
  | [], c => by simp [stmts, Stmt.annotateAll, Stmt.eventsAll]
  | s :: ss, c => by
    simp [stmts, stmt_apply ret s, stmts_apply ret ss, Stmt.annotateAll, Stmt.eventsAll]
end

end Check

/-! ## Functions

A function is checked inside a scope with its parameters, with its own name as the function around
and with no loop around.  After its body the function and the loops around are set back to what they
were. -/

namespace FnDecl

/-- The scope of the parameters of a function. -/
def paramScope (f : FnDecl) : Scope := Scope.declareAll [] f.params

/-- The function with the types written on the expressions of its body. -/
def annotate (Γ : Context) (f : FnDecl) : FnDecl :=
  { f with body := f.body.annotate (Γ.push f.paramScope) }

/-- The events of a function between its first and its last one. -/
def innerEvents (σ : Site) (f : FnDecl) : List Event :=
  reports (Rule.resultIssue? f.name f.returnType) f.position
    ++ σ.inScope (Scope.paramEvents f.name [] f.params
      ++ f.body.events ((σ.inFunction f.name).push f.paramScope) (Ty.ofName? f.returnType))

/-- The events of a function.  The last one counts the diagnostics among them. -/
def events (σ : Site) (f : FnDecl) : List Event :=
  .checkingFunction f.name f.position
    :: (f.innerEvents σ
      ++ [.checkedFunction f.name (Event.diagnostics (f.innerEvents σ)).length])

end FnDecl

namespace Check

@[simp] theorem returnType_apply (f : FnDecl) (c : Checker) :
    returnType f c = .ok (Ty.ofName? f.returnType)
      (c.move c.site (reports (Rule.resultIssue? f.name f.returnType) f.position)) := by
  simp [returnType]

@[simp] theorem enterFunction_apply (name : String) (c : Checker) :
    (modify fun c ↦ { c with function := some name, loopDepth := 0 } : Check PUnit) c
      = .ok ⟨⟩ (c.move (c.site.inFunction name) []) := by
  simp [modify_apply, Checker.move, Checker.site, Site.inFunction]

/-- After a function, the function and the loops around are those from before. -/
@[simp] theorem leaveFunction_move (name : String) (c : Checker) (σ : Site) (es : List Event) :
    (modify fun d ↦ { d with function := σ.function, loopDepth := σ.loops } : Check PUnit)
        (c.move (σ.inFunction name) es)
      = .ok ⟨⟩ (c.move σ es) := by
  simp [modify_apply, Checker.move, Site.inFunction]

/-- **A function leaves the site as it was**, and so the function around it and the loops there. -/
theorem function_apply (f : FnDecl) (c : Checker) :
    function f c = .ok (f.annotate c.site.context) (c.move c.site (f.events c.site)) := by
  simp [function, block_apply, FnDecl.annotate, FnDecl.paramScope, FnDecl.events,
    FnDecl.innerEvents, Site.inScope, Event.diagnostics_cons, Event.diagnostic?]

end Check

/-! ## Installing functions and globals

What happens before the first body is checked.  The functions are put into the registry in order,
and one that cannot be installed is reported and left out.  The globals are bound in a scope that
stays open until the end. -/

namespace Registry

/-- Why a function cannot be installed. -/
def issue? (r : Registry) (f : FnDecl) : Option Issue :=
  if f.name = printName then some .printRedefined
  else if r.contains f.name then some (.functionAlreadyDeclared f.name)
  else none

/-- The registry after a function, which is declaration `i`. -/
def declare (r : Registry) (f : FnDecl) (i : Nat) : Registry :=
  if r.issue? f = none then r.install (.ofDecl f i) else r

/-- The registry after declarations, the first of which has number `i`. -/
def declareFrom : Registry → Nat → List Decl → Registry
  | r, _, [] => r
  | r, i, .function f :: ds => declareFrom (r.declare f i) (i + 1) ds
  | r, i, .global _ :: ds => declareFrom r (i + 1) ds

/-- The events of installing the functions among declarations. -/
def installEvents : Registry → Nat → List Decl → List Event
  | _, _, [] => []
  | r, i, .function f :: ds =>
    .installingFunction f.name f.position
      :: (reports (r.issue? f) f.position ++ installEvents (r.declare f i) (i + 1) ds)
  | r, i, .global _ :: ds => installEvents r (i + 1) ds

/-- The events of looking at the entry function. -/
def entryEvents (r : Registry) (entry : String) : List Event :=
  match r.get? entry with
  | none => [.reported { issue := .missingEntry entry }]
  | some s =>
    reports (if s.params = [] then none else some (.entryHasParameters entry)) s.position
      ++ reports (if s.returnType = Ty.void.name then none else some (.entryReturnType entry))
        s.position

end Registry

/-- The issue of a global variable in the scope `f`: the annotation of one whose name is taken is
not looked at. -/
def Scope.globalIssue? (f : Scope) (v : VarDecl) : Option Issue :=
  if (f.lookup v.name).isSome then some (.globalAlreadyDeclared v.name)
  else Rule.variableIssue? v.typeName (.voidVariable v.name)

/-- The events of global variables, in the scope `f`. -/
def Scope.globalEvents : Scope → List VarDecl → List Event
  | _, [] => []
  | f, v :: vs =>
    .installingGlobal v.name v.position
      :: (reports (f.globalIssue? v) v.position ++ globalEvents (f.declare v) vs)

/-- How many global variables get a type, in the scope `f`. -/
def Scope.countGlobals : Scope → List VarDecl → Nat
  | _, [] => 0
  | f, v :: vs =>
    (if (f.lookup v.name).isNone && (Ty.ofVariable? v.typeName).isSome then 1 else 0)
      + countGlobals (f.declare v) vs

/-- The site with another registry. -/
def Site.withRegistry (σ : Site) (r : Registry) : Site := { σ with registry := r }

namespace Check

/-- A function is installed, or it is reported and the registry stays as it is. -/
theorem installFunction_move (f : FnDecl) (i : Nat) (c : Checker) (σ : Site) (es : List Event) :
    installFunction f i (c.move σ es)
      = .ok () (c.move (σ.withRegistry (σ.registry.declare f i))
        (es ++ .installingFunction f.name f.position
          :: reports (σ.registry.issue? f) f.position)) := by
  by_cases hp : f.name = printName
  · simp [installFunction, Registry.declare, Registry.issue?, hp, Site.withRegistry]
  · cases hc : σ.registry.contains f.name
    · simp [installFunction, Registry.declare, Registry.issue?, hp, hc, modify_apply]
      simp [Checker.move, Site.withRegistry]
    · simp [installFunction, Registry.declare, Registry.issue?, hp, hc, Site.withRegistry]

/-- The functions are installed in order, each into the registry that the ones before it leave. -/
theorem installFunctionsFrom_move (c : Checker) (ds : List Decl) :
    ∀ (i : Nat) (σ : Site) (es : List Event), installFunctionsFrom i ds (c.move σ es)
      = .ok () (c.move (σ.withRegistry (σ.registry.declareFrom i ds))
        (es ++ σ.registry.installEvents i ds)) := by
  induction ds with
  | nil =>
    intro i σ es
    simp [installFunctionsFrom, Registry.declareFrom, Registry.installEvents, Site.withRegistry]
  | cons d ds ih =>
    intro i σ es
    cases d with
    | function f =>
      simp [installFunctionsFrom, installFunction_move, ih, Registry.declareFrom,
        Registry.installEvents, Site.withRegistry]
    | global v =>
      simp [installFunctionsFrom, ih, Registry.declareFrom, Registry.installEvents]

/-- Looking at the entry function changes nothing; there is a report if it is missing, and up to two
if it is there. -/
theorem entry_apply (c : Checker) :
    entry c = .ok () (c.move c.site (c.site.registry.entryEvents c.entry)) := by
  cases hs : c.site.registry.get? c.entry with
  | none =>
    have hs' : c.registry.get? c.entry = none := hs
    simp [entry, Registry.entryEvents, hs, hs']
  | some s =>
    have hs' : c.registry.get? c.entry = some s := hs
    by_cases hp : s.params = [] <;> by_cases hr : s.returnType = Ty.void.name <;>
      simp [entry, Registry.entryEvents, hs, hs', hp, hr]

/-- A global variable is bound in the global scope unless its name is taken.  The action says
whether it got a type, for the count at the end. -/
theorem installGlobal_move (v : VarDecl) (c : Checker) (σ : Site) (f : Scope) (es : List Event) :
    installGlobal v (c.move (σ.push f) es)
      = .ok ((f.lookup v.name).isNone && (Ty.ofVariable? v.typeName).isSome)
        (c.move (σ.push (f.declare v)) (es ++ .installingGlobal v.name v.position
          :: reports (f.globalIssue? v) v.position)) := by
  cases ht : f.lookup v.name <;>
    simp [installGlobal, ht, variableType, Scope.declare, Scope.globalIssue?]

/-- The globals are bound in order, and those that got a type are counted. -/
theorem installGlobalsOf_move (c : Checker) (σ : Site) (vs : List VarDecl) :
    ∀ (f : Scope) (es : List Event), installGlobalsOf vs (c.move (σ.push f) es)
      = .ok (f.countGlobals vs) (c.move (σ.push (f.declareAll vs)) (es ++ f.globalEvents vs)) := by
  induction vs with
  | nil =>
    intro f es
    simp [installGlobalsOf, Scope.declareAll, Scope.globalEvents, Scope.countGlobals]
  | cons v vs ih =>
    intro f es
    simp [installGlobalsOf, installGlobal_move, ih, Scope.declareAll, Scope.globalEvents,
      Scope.countGlobals]

end Check

/-! ## Programs

The four passes in a row: functions, entry, globals, and then the bodies, which are checked with all
functions and all globals known. -/

namespace Decl

/-- Declaration number `i` with the types written on its expressions, if it is installed. -/
def annotate (Γ : Context) (i : Nat) : Decl → Decl
  | .global v => .global v
  | .function f => .function (if Γ.registry.isInstalled f.name i then f.annotate Γ else f)

/-- The events of declaration number `i`. -/
def events (σ : Site) (i : Nat) : Decl → List Event
  | .global _ => []
  | .function f =>
    if σ.registry.isInstalled f.name i then f.events σ else [.skippingFunction f.name f.position]

/-- The declarations with the types written on their expressions; the first has number `i`. -/
def annotateFrom (Γ : Context) : Nat → List Decl → List Decl
  | _, [] => []
  | i, d :: ds => d.annotate Γ i :: annotateFrom Γ (i + 1) ds

/-- The events of declarations in order; the first has number `i`. -/
def eventsFrom (σ : Site) : Nat → List Decl → List Event
  | _, [] => []
  | i, d :: ds => d.events σ i ++ eventsFrom σ (i + 1) ds

end Decl

namespace Check

/-- A declaration leaves the site as it was.  A function that is not installed is skipped. -/
theorem decl_apply (i : Nat) (d : Decl) (c : Checker) :
    decl i d c = .ok (d.annotate c.site.context i) (c.move c.site (d.events c.site i)) := by
  cases d with
  | global v => simp [decl, Decl.annotate, Decl.events]
  | function f =>
    cases h : c.registry.isInstalled f.name i with
    | false =>
      have h' : c.site.registry.isInstalled f.name i = false := h
      simp [decl, Decl.annotate, Decl.events, Site.context, h, h']
    | true =>
      have h' : c.site.registry.isInstalled f.name i = true := h
      simp [decl, function_apply, Decl.annotate, Decl.events, h, h']
      simp [Site.context, h']

/-- So do declarations in a row, which are all checked at the same site. -/
theorem declsFrom_apply (ds : List Decl) : ∀ (i : Nat) (c : Checker),
    declsFrom i ds c = .ok (Decl.annotateFrom c.site.context i ds)
      (c.move c.site (Decl.eventsFrom c.site i ds)) := by
  induction ds with
  | nil =>
    intro i c
    simp [declsFrom, Decl.annotateFrom, Decl.eventsFrom]
  | cons d ds ih =>
    intro i c
    simp [declsFrom, decl_apply, ih, Decl.annotateFrom, Decl.eventsFrom]

end Check

namespace Program

/-- The functions of a program that can be called. -/
def registry (p : Program) : Registry := Registry.empty.declareFrom 0 p.decls

/-- The scope of the global variables of a program. -/
def globalScope (p : Program) : Scope := Scope.declareAll [] p.globals

/-- Where the global variables of a program are declared, and where its check ends: outside of all
scopes, with all functions known. -/
def outerSite (p : Program) : Site := ⟨.empty, p.registry, none, 0⟩

/-- Where the functions of a program are checked. -/
def site (p : Program) : Site := p.outerSite.push p.globalScope

@[simp] theorem registry_outerSite (p : Program) : p.outerSite.registry = p.registry := rfl

@[simp] theorem scopes_outerSite (p : Program) : p.outerSite.scopes = .empty := rfl

/-- The program with the types written on its expressions. -/
def annotate (p : Program) : Program := ⟨Decl.annotateFrom p.site.context 0 p.decls⟩

/-- The events of a program before its last one. -/
def innerEvents (p : Program) (entry : String) : List Event :=
  Registry.empty.installEvents 0 p.decls ++ [.installedFunctions p.registry.size]
    ++ p.registry.entryEvents entry ++ [.enteredScope 1]
    ++ Scope.globalEvents [] p.globals ++ [.installedGlobals (Scope.countGlobals [] p.globals)]
    ++ Decl.eventsFrom p.site 0 p.decls ++ [.exitingScope 1]

/-- The events of a program.  The last one counts the diagnostics among them. -/
def events (p : Program) (entry : String) : List Event :=
  p.innerEvents entry ++ [.finished (Event.diagnostics (p.innerEvents entry)).length]

/-- The state after the check of a program. -/
def checked (p : Program) (entry : String) : Checker :=
  (Checker.start entry).move p.outerSite (p.events entry)

/-- The diagnostics of a program. -/
def diagnostics (p : Program) (entry : String) : List Diagnostic :=
  Event.diagnostics (p.events entry)

/-- The diagnostics after a check are those of its events. -/
@[simp] theorem diagnostics_checked (p : Program) (entry : String) :
    (p.checked entry).diagnostics = p.diagnostics entry := by
  simp [checked, diagnostics, Checker.diagnostics_start]

/-- **A check always comes to an end without a fault.**  It gives the program with its types, and
the state after it stands outside of all scopes with the events of the program in its log. -/
theorem check_eq (p : Program) (entry : String) :
    p.check entry = .ok (p.annotate, p.checked entry) := by
  -- the start has no scope and no function, so the pass over the functions is stated for it alone
  have hfns : Check.installFunctionsFrom 0 p.decls (.start entry)
      = .ok () ((Checker.start entry).move p.outerSite
        (Registry.empty.installEvents 0 p.decls)) :=
    Check.installFunctionsFrom_move (.start entry) p.decls 0 (Checker.start entry).site []
  have hrun : (Check.program p) (.start entry) = .ok p.annotate (p.checked entry) := by
    simp [Check.program, Check.installFunctions, hfns, Check.entry_apply, Check.installGlobals,
      Check.installGlobalsOf_move, Check.declsFrom_apply, annotate, checked, events, innerEvents,
      site, globalScope]
  rw [check, EStateM.run, hrun]

end Program

/-! ## Nothing but the log changes

All equations above end at the site that they start from.  Read for the state as a whole, this is
the discipline of scopes: every scope that is opened is closed again, and nothing that was bound
outside is lost or changed. -/

/-- The state `d` is `c` with more diagnostics, and else as it was: the same scopes are open and
bind the same names in the same way. -/
structure Checker.Extends (c d : Checker) : Prop where
  scopes : d.scopes = c.scopes
  registry : d.registry = c.registry
  entry : d.entry = c.entry
  function : d.function = c.function
  loopDepth : d.loopDepth = c.loopDepth
  /-- The old diagnostics come first. -/
  diagnostics : c.diagnostics <+: d.diagnostics

/-- A move that stays at its site extends the state. -/
theorem Checker.extends_move (c : Checker) (es : List Event) : c.Extends (c.move c.site es) where
  scopes := rfl
  registry := rfl
  entry := rfl
  function := rfl
  loopDepth := rfl
  diagnostics := by
    rw [diagnostics_move]
    exact List.prefix_append _ _

/-- The action comes to an end without a fault, whatever the state is that it starts from, and the
state extends that one then. -/
def Check.Keeps {α : Type} (m : Check α) : Prop :=
  ∀ c : Checker, ∃ a d, m.run c = .ok a d ∧ c.Extends d

/-- **Scopes are balanced, and a check never breaks the scope discipline.**  An expression, a
statement, a block or a function can be checked in any state, even in one without an open scope, and
leaves all of it as it was but for more diagnostics.  So the check of a whole program ends outside
of all scopes, functions and loops. -/
theorem Check.scopes_balanced :
    (∀ e : Expr, Check.Keeps (Check.expr e)) ∧
    (∀ (ret : Option Ty) (s : Stmt), Check.Keeps (Check.stmt ret s)) ∧
    (∀ (ret : Option Ty) (b : Block), Check.Keeps (Check.block ret b)) ∧
    (∀ f : FnDecl, Check.Keeps (Check.function f)) ∧
    ∀ (p : Program) (entry : String), ∃ q d, p.check entry = .ok (q, d) ∧
      d.scopes.depth = 0 ∧ d.loopDepth = 0 ∧ d.function = none := by
  refine ⟨?_, ?_, ?_, ?_, ?_⟩
  · intro e c
    exact ⟨_, _, Check.expr_apply e c, c.extends_move _⟩
  · intro ret s c
    exact ⟨_, _, Check.stmt_apply ret s c, c.extends_move _⟩
  · intro ret b c
    exact ⟨_, _, Check.block_apply ret b c, c.extends_move _⟩
  · intro f c
    exact ⟨_, _, Check.function_apply f c, c.extends_move _⟩
  · intro p entry
    exact ⟨_, _, p.check_eq entry, rfl, rfl, rfl⟩

end Typewright
