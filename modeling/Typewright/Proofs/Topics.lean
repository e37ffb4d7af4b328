import Typewright.Proofs.ProgramTyping
import Typewright.Proofs.Visits

/-!
# What a check reports about

Every issue is about one topic: the name of a function, the name or the annotation of a variable,
the entry function, a name that is not declared, an expression, a statement, or a jump.
`Diagnostic.about t ds` are the diagnostics among `ds` that are about `t`, in order, and
`Diagnostic.KeepTo T ds` says that all of `ds` are about the topics `T`.

Many results about a check single out one kind of issue: the jumps outside of loops, the annotations
that name no type, the names that are not declared, the functions that cannot be installed.  Each of
them needs to know that the rest of a check never reports that kind.  Going through all rules again
for every kind would be the same case analysis many times over.  Here it is done once: each rule and
each loop has one lemma that says which topics it keeps to, and what is wanted of a single kind of
issue is read off its topic (`KeepTo.about_eq_nil`, `KeepTo.about_eq_self`).

* `Expr.topic_check`: an expression is reported about as an expression, or because a name in it is
  not declared.  Only the rules of a variable and of an assignment can report the latter; all others
  are `Ruling.OfExpression`.
* `Scope.Loop.topic_events`: a loop over declarations, of which there are three, reports about names
  and annotations.  `Scope.Loop` is what the three have in common.
* `Stmt.topic_events`, `FnDecl.topic_events`: a body keeps to the topics of its declarations,
  expressions and statements, and a function to these and to the annotation of its result.
* `Registry.topic_installEvents`, `Registry.topic_entryEvents`: the passes before the bodies.

The last section says the same of the events that are no reports: which passes log nothing that
belongs to the check of a function.
-/

set_option autoImplicit false

namespace Typewright

/-! ## Topics

The topics are as fine as the results need them and no finer.  An annotation of a result that names
the function for output is apart from the other annotations, because no declaration of a variable
can have this issue.  An undeclared variable is apart from other issues of expressions, because it
is the only one about the scopes. -/

/-- What an issue is about. -/
inductive Topic where
  /-- The text or the tokens that a program is read from. -/
  | reading
  /-- The name of a function that cannot be installed under it. -/
  | installing
  /-- The name of a variable that is declared already. -/
  | redeclaring
  /-- An annotation that names no type, or one that a variable cannot have. -/
  | annotating
  /-- An annotation of a result that names the function for output. -/
  | printing
  | entry
  /-- A variable that is read or assigned to and that is not declared. -/
  | resolving
  /-- Any other issue of an expression. -/
  | expression
  | statement
  | jump
deriving DecidableEq, Repr

/-- What the issue is about. -/
def Issue.topic : Issue → Topic
  | unrecognisedToken _ | unexpectedToken _ | unexpectedTokenDetailed _ _ | malformedNumber _ =>
    .reading
  | printRedefined | functionAlreadyDeclared _ => .installing
  | globalAlreadyDeclared _ | localAlreadyDeclared _ | duplicateParameter _ _ => .redeclaring
  | voidParameter _ _ | voidVariable _ | unknownType _ => .annotating
  | returnTypeIsPrint _ => .printing
  | missingEntry _ | entryHasParameters _ | entryReturnType _ => .entry
  | variableNotDeclared _ | targetNotDeclared _ => .resolving
  | functionNotDeclared _ | assignmentMismatch _ _ | cannotCompare _ _ | cannotMod _ _
  | noNegative _ | logicalOperands _ _ _ | logicalNot _ | bitwiseOperands _ _ _ | bitwiseNot _
  | printWithoutFormat | printFormatType _ | wrongArgumentCount _ _ _
  | argumentMismatch _ _ _ _ => .expression
  | predicateNotBool _ | returnValueInVoid _ | missingReturnValue _ _ | returnMismatch _ _ _ =>
    .statement
  | outsideLoop _ => .jump

/-! ## Diagnostics about a topic

A filter and a bound.  The bound is what is proved of each pass; the filter is what the statements
about a single kind of issue are made of. -/

namespace Diagnostic

/-- The diagnostics that are about the topic, in order. -/
def about (t : Topic) (ds : List Diagnostic) : List Diagnostic := ds.filter (·.issue.topic = t)

/-- Every one of the diagnostics is about one of these topics. -/
def KeepTo (T : List Topic) (ds : List Diagnostic) : Prop := ∀ d ∈ ds, d.issue.topic ∈ T

section About

variable {t : Topic} {T : List Topic} {ds es : List Diagnostic}

@[simp] theorem about_nil : about t [] = [] := rfl

@[simp] theorem about_append : about t (ds ++ es) = about t ds ++ about t es :=
  List.filter_append _ _

@[simp] theorem about_flatMap {α : Type} (as : List α) (f : α → List Diagnostic) :
    about t (as.flatMap f) = as.flatMap fun a ↦ about t (f a) :=
  List.filter_flatMap

@[simp] theorem keepTo_nil : KeepTo T [] := List.forall_mem_nil _

@[simp] theorem keepTo_append : KeepTo T (ds ++ es) ↔ KeepTo T ds ∧ KeepTo T es :=
  List.forall_mem_append

@[simp] theorem keepTo_flatMap {α : Type} {as : List α} {f : α → List Diagnostic} :
    KeepTo T (as.flatMap f) ↔ ∀ a ∈ as, KeepTo T (f a) := by
  simp only [KeepTo, List.forall_mem_flatMap]

theorem keepTo_located {is : List Issue} (h : ∀ i ∈ is, i.topic ∈ T) (p : Position) :
    KeepTo T (is.map (.located · p)) :=
  List.forall_mem_map.2 h

/-- A report of a rule keeps to the topic of its issue. -/
theorem keepTo_reports {i : Option Issue} (h : ∀ j ∈ i, j.topic ∈ T) (p : Position) :
    KeepTo T (i.toList.map (.located · p)) :=
  keepTo_located (fun j hj ↦ h j (Option.mem_toList.1 hj)) p

/-- What keeps to some topics keeps to more. -/
theorem KeepTo.mono {U : List Topic} (h : KeepTo T ds) (hTU : T ⊆ U) : KeepTo U ds :=
  fun d hd ↦ hTU (h d hd)

/-- Nothing is about a topic that is not kept to. -/
theorem KeepTo.about_eq_nil (h : KeepTo T ds) (ht : t ∉ T) : about t ds = [] :=
  List.filter_eq_nil_iff.2 fun d hd heq ↦ ht (of_decide_eq_true heq ▸ h d hd)

/-- All is about the only topic that is kept to. -/
theorem KeepTo.about_eq_self (h : KeepTo [t] ds) : about t ds = ds :=
  List.filter_eq_self.2 fun d hd ↦ decide_eq_true (List.mem_singleton.1 (h d hd))

end About

end Diagnostic

open Diagnostic

/-! ## Expressions

The rule of a node reports about the expression, and never that a name is not declared.  There are
two exceptions, the variable and the assignment, and both do it before any other rule is looked at:
so `Rule.assign`, which is applied to a target that is declared, is `OfExpression` like the rest. -/

/-- The issues of the ruling are about expressions. -/
def Ruling.OfExpression (r : Ruling) : Prop := ∀ i ∈ r.issues, i.topic = .expression

namespace Ruling

theorem ofExpression_accept (t : Ty) : (accept t).OfExpression := List.forall_mem_nil _

theorem ofExpression_poison : poison.OfExpression := List.forall_mem_nil _

theorem ofExpression_refuse {i : Issue} (hi : i.topic = .expression) : (refuse i).OfExpression :=
  List.forall_mem_singleton.2 hi

theorem ofExpression_acceptIf (ok : Bool) (t : Ty) {i : Issue} (hi : i.topic = .expression) :
    (acceptIf ok t i).OfExpression := by
  cases ok with
  | false => exact ofExpression_refuse hi
  | true => exact ofExpression_accept t

end Ruling

namespace Rule

open Ruling

theorem ofExpression_assign (b : Binding) (received : Option Ty) :
    (assign b received).OfExpression := by
  unfold assign
  split
  · exact ofExpression_poison
  · exact ofExpression_accept _
  · exact ofExpression_acceptIf _ _ rfl

theorem ofExpression_binary (op : BinaryOp) (left right : Ty) :
    (binary op left right).OfExpression := by
  cases op <;> exact ofExpression_acceptIf _ _ rfl

theorem ofExpression_unary (op : UnaryOp) (operand : Ty) : (unary op operand).OfExpression := by
  cases op <;> exact ofExpression_acceptIf _ _ rfl

theorem ofExpression_print (args : List (Option Ty)) : (print args).OfExpression := by
  unfold print
  split
  · exact ofExpression_refuse rfl
  · exact ofExpression_acceptIf _ _ rfl
  · exact ofExpression_accept _

/-- Every mismatch of an argument is an issue of the call. -/
theorem topic_mismatches (function : String) (n : Nat) (params args : List (Option Ty)) :
    ∀ i ∈ mismatches function n params args, i.topic = .expression := by
  fun_induction mismatches function n params args with
  | case1 n expected params received args ih =>
    refine List.forall_mem_append.2 ⟨?_, ih⟩
    split
    · exact List.forall_mem_nil _
    · exact List.forall_mem_singleton.2 rfl
  | case2 _ _ _ _ _ _ ih => exact ih
  | case3 => exact List.forall_mem_nil _

theorem ofExpression_applied (s : Signature) (function : String) (args : List (Option Ty)) :
    (applied s function args).OfExpression := by
  by_cases hlength : s.params.length = args.length
  · rw [Ruling.OfExpression, applied, if_pos hlength]
    exact topic_mismatches function 1 s.params args
  · rw [Ruling.OfExpression, applied, if_neg hlength]
    exact List.forall_mem_singleton.2 rfl

/-- A call can be reported because its function is not declared.  This is an issue of the expression
and not of resolving, which is about variables. -/
theorem ofExpression_call (r : Registry) (function : String) (args : List (Option Ty)) :
    (call r function args).OfExpression := by
  unfold call
  split
  · exact ofExpression_print args
  · split
    · exact ofExpression_refuse rfl
    · exact ofExpression_applied _ function args

end Rule

namespace Expr

/-- The rule of a node is about the expression, or about a name in it that is not declared. -/
theorem topic_ruling (Γ : Context) (e : Expr) :
    ∀ i ∈ (e.ruling Γ).issues, i.topic ∈ [.resolving, .expression] := by
  -- only names can be unresolved, all other issues are about the expression itself
  have hexpression : ∀ {r : Ruling}, r.OfExpression →
      ∀ i ∈ r.issues, i.topic ∈ [Topic.resolving, .expression] := fun hr i hi ↦ by
    rw [hr i hi]
    decide
  cases e with
  | int | float | string | bool | absent => exact hexpression (Ruling.ofExpression_accept _)
  | actual => exact List.forall_mem_nil _
  | var n x =>
    rw [ruling]
    cases Γ.scopes.lookup x with
    | none => exact List.forall_mem_singleton.2 List.mem_cons_self
    | some b => exact List.forall_mem_nil _
  | assign n x e =>
    rw [ruling]
    cases Γ.scopes.lookup x with
    | none => exact List.forall_mem_singleton.2 List.mem_cons_self
    | some b => exact hexpression (Rule.ofExpression_assign b _)
  | binary n e op f =>
    rw [ruling]
    split
    · exact hexpression (Rule.ofExpression_binary op _ _)
    · exact hexpression Ruling.ofExpression_poison
  | unary n op e =>
    rw [ruling]
    split
    · exact hexpression (Rule.ofExpression_unary op _)
    · exact hexpression Ruling.ofExpression_poison
  | call n f args => exact hexpression (Rule.ofExpression_call _ f _)

/-- **An expression is reported about as an expression, or because of a name that is not
declared.**  By induction along the visit, not over the tree: a part that is not visited reports
nothing. -/
theorem topic_check (Γ : Context) (e : Expr) :
    KeepTo [.resolving, .expression] (e.check Γ).diagnostics := by
  induction e using induct_visited Γ with
  | node e ih =>
    rw [diagnostics_check, keepTo_append, keepTo_flatMap]
    exact ⟨ih, keepTo_located (e.topic_ruling Γ) _⟩

end Expr

/-! ## Declarations in one scope

Globals, parameters and locals are declared by three loops.  They differ in their events, in the
wording of two issues and in one decision: the loop over the globals does not look at the annotation
of a name that is taken, and the other two do.  `Scope.Loop` says what they have in common, with
that decision as a parameter, and everything else is proved of a `Scope.Loop`. -/

namespace VarDecl

/-- What a loop over declarations reports about one of them: its annotation, and its name if that is
`taken`.  A loop that `skips` does not look at the annotation then. -/
def loopDiagnostics (skips taken : Bool) (void duplicate : Issue) (v : VarDecl) :
    List Diagnostic :=
  (if skips && taken then [] else v.annotationDiagnostics void)
    ++ if taken then [.located duplicate v.position] else []

theorem topic_annotationDiagnostics {void : Issue} (hvoid : void.topic = .annotating)
    (v : VarDecl) : KeepTo [.annotating] (v.annotationDiagnostics void) := by
  refine keepTo_reports ?_ _
  unfold Rule.variableIssue?
  split <;> rintro _ ⟨⟩
  · exact List.mem_singleton.2 rfl
  · exact List.mem_singleton.2 hvoid

end VarDecl

namespace Scope

/-- The events are those of a loop that declares variables in a scope, one after the other. -/
structure Loop (skips : Bool) (void duplicate : VarDecl → Issue)
    (events : Scope → List VarDecl → List Event) : Prop where
  nil : ∀ f, Event.diagnostics (events f []) = []
  cons : ∀ (f : Scope) (v : VarDecl) (vs : List VarDecl), Event.diagnostics (events f (v :: vs))
    = v.loopDiagnostics skips (f.lookup v.name).isSome (void v) (duplicate v)
      ++ Event.diagnostics (events (f.declare v) vs)
  topic_void : ∀ v, (void v).topic = .annotating
  topic_duplicate : ∀ v, (duplicate v).topic = .redeclaring

/-- A parameter or local variable is reported about by its annotation and, if its name is taken, by
that as well. -/
theorem diagnostics_declareEvents (f : Scope) (v : VarDecl) (void duplicate : Issue) :
    Event.diagnostics (f.declareEvents v void duplicate)
      = v.loopDiagnostics false (f.lookup v.name).isSome void duplicate := by
  rw [declareEvents, Event.diagnostics_append, diagnostics_reports, diagnostics_reports]
  cases (f.lookup v.name).isSome <;> rfl

/-- The loop over the variables of a block. -/
theorem loop_locals :
    Loop false (.voidVariable ·.name) (.localAlreadyDeclared ·.name) localEvents where
  nil := fun _ ↦ rfl
  cons := by
    intro f v vs
    rw [localEvents, Event.diagnostics_cons, Event.diagnostics_append, diagnostics_declareEvents]
    rfl
  topic_void := fun _ ↦ rfl
  topic_duplicate := fun _ ↦ rfl

/-- The loop over the parameters of a function, which has its own words for both issues. -/
theorem loop_params (function : String) :
    Loop false (.voidParameter function ·.name) (.duplicateParameter function ·.name)
      (paramEvents function) where
  nil := fun _ ↦ rfl
  cons := by
    intro f v vs
    rw [paramEvents, Event.diagnostics_append, diagnostics_declareEvents]
  topic_void := fun _ ↦ rfl
  topic_duplicate := fun _ ↦ rfl

/-- The annotation of a global variable is not looked at if its name is taken. -/
theorem loop_globals :
    Loop true (.voidVariable ·.name) (.globalAlreadyDeclared ·.name) globalEvents where
  nil := fun _ ↦ rfl
  cons := by
    intro f v vs
    rw [globalEvents, Event.diagnostics_cons, Event.diagnostics_append, diagnostics_reports,
      globalIssue?]
    cases (f.lookup v.name).isSome with
    | false =>
      rw [VarDecl.loopDiagnostics, VarDecl.annotationDiagnostics]
      simp [Event.diagnostic?]
    | true => rfl
  topic_void := fun _ ↦ rfl
  topic_duplicate := fun _ ↦ rfl

/-- **A loop over declarations reports about names and annotations only.** -/
theorem Loop.topic_events {skips : Bool} {void duplicate : VarDecl → Issue}
    {events : Scope → List VarDecl → List Event} (h : Loop skips void duplicate events)
    (vs : List VarDecl) : ∀ f : Scope,
      KeepTo [.redeclaring, .annotating] (Event.diagnostics (events f vs)) := by
  induction vs with
  | nil =>
    intro f
    rw [h.nil]
    exact keepTo_nil
  | cons v vs ih =>
    intro f
    rw [h.cons, VarDecl.loopDiagnostics, keepTo_append, keepTo_append]
    refine ⟨⟨?_, ?_⟩, ih _⟩
    · split
      · exact keepTo_nil
      · exact (v.topic_annotationDiagnostics (h.topic_void v)).mono (by decide)
    · split
      · exact List.forall_mem_singleton.2 (List.mem_cons.2 (.inl (h.topic_duplicate v)))
      · exact keepTo_nil

end Scope

/-! ## Statements

The rule of a statement has one issue at most, and one topic.  It is stated of the diagnostic at any
place, since this is the form in which it stands among the diagnostics of the statement. -/

/-- What the body of a function can be reported about. -/
def Topic.ofBody : List Topic :=
  [.redeclaring, .annotating, .resolving, .expression, .statement, .jump]

namespace Rule

theorem topic_predicateIssue? (statement : String) (t : Option Ty) (p : Position) :
    KeepTo [.statement] ((predicateIssue? statement t).toList.map (.located · p)) := by
  refine keepTo_reports ?_ p
  unfold predicateIssue?
  split <;> rintro _ ⟨⟩
  exact List.mem_singleton.2 rfl

theorem topic_returnIssue? (function : String) (expected : Option Ty) (given : Bool)
    (received : Option Ty) (p : Position) : KeepTo [.statement]
      ((returnIssue? function expected given received).toList.map (.located · p)) := by
  refine keepTo_reports ?_ p
  unfold returnIssue?
  split <;> try split
  all_goals
    rintro _ ⟨⟩
    try exact List.mem_singleton.2 rfl

theorem topic_jumpIssue? (loops : Nat) (j : Jump) (p : Position) :
    KeepTo [.jump] ((jumpIssue? loops j).toList.map (.located · p)) := by
  refine keepTo_reports ?_ p
  unfold jumpIssue?
  split <;> rintro _ ⟨⟩
  exact List.mem_singleton.2 rfl

end Rule

namespace Expr

/-- A condition has the topics of its expression and its own. -/
theorem topic_predicate (Γ : Context) (statement : String) (p : Position) (e : Expr) :
    KeepTo [.resolving, .expression, .statement]
      (Event.diagnostics (e.predicateEvents Γ statement p)) := by
  rw [diagnostics_predicateEvents, keepTo_append]
  exact ⟨(e.topic_check Γ).mono (by decide), (Rule.topic_predicateIssue? _ _ p).mono (by decide)⟩

theorem topic_loopCondition (Γ : Context) (p : Position) (e : Expr) :
    KeepTo [.resolving, .expression, .statement]
      (Event.diagnostics (e.loopConditionEvents Γ p)) := by
  unfold loopConditionEvents
  split
  · exact (e.topic_check Γ).mono (by decide)
  · exact e.topic_predicate Γ "for" p

/-- A `return` has the topics of its value and its own. -/
theorem topic_return (σ : Site) (ret : Option Ty) (p : Position) (e : Expr) :
    KeepTo [.resolving, .expression, .statement]
      (Event.diagnostics (e.returnEvents σ ret p)) := by
  rw [diagnostics_returnEvents, keepTo_append]
  exact ⟨(e.topic_check _).mono (by decide),
    (Rule.topic_returnIssue? _ _ _ _ p).mono (by decide)⟩

end Expr

/-- **A statement keeps to the topics of a body, and so does a block.** -/
theorem Stmt.topic_events (ret : Option Ty) :
    (∀ (s : Stmt) (σ : Site), KeepTo Topic.ofBody (Event.diagnostics (s.events σ ret))) ∧
    ∀ (b : Block) (σ : Site), KeepTo Topic.ofBody (Event.diagnostics (b.events σ ret)) := by
  have hexpr : ∀ (e : Expr) (Γ : Context), KeepTo Topic.ofBody (e.check Γ).diagnostics :=
    fun e Γ ↦ (e.topic_check Γ).mono (by decide)
  have hpredicate : ∀ (e : Expr) (Γ : Context) (statement : String) (p : Position),
      KeepTo Topic.ofBody (Event.diagnostics (e.predicateEvents Γ statement p)) :=
    fun e Γ statement p ↦ (e.topic_predicate Γ statement p).mono (by decide)
  refine Stmt.induct ?block ?cond ?whileLoop ?forLoop ?ret ?jump ?expr ?body
  case block =>
    intro b ih σ
    rw [diagnostics_block]
    exact ih σ
  case cond =>
    intro p c a b iha ihb σ
    rw [diagnostics_cond, keepTo_append, keepTo_append]
    exact ⟨hpredicate c _ _ p, iha _, ihb _⟩
  case whileLoop =>
    intro p c b ih σ
    rw [diagnostics_whileLoop, keepTo_append]
    exact ⟨hpredicate c _ _ p, ih _⟩
  case forLoop =>
    intro p i c s b ih σ
    rw [diagnostics_forLoop, keepTo_append, keepTo_append, keepTo_append]
    exact ⟨hexpr i _, (c.topic_loopCondition _ p).mono (by decide), hexpr s _, ih _⟩
  case ret =>
    intro p e σ
    rw [diagnostics_ret]
    exact (e.topic_return σ ret p).mono (by decide)
  case jump =>
    intro p j σ
    rw [diagnostics_jump]
    exact (Rule.topic_jumpIssue? _ j p).mono (by decide)
  case expr =>
    intro e σ
    rw [diagnostics_expr]
    exact hexpr e _
  case body =>
    intro p vars ss ih σ
    rw [Block.diagnostics_mk, keepTo_append, keepTo_flatMap]
    exact ⟨(Scope.loop_locals.topic_events vars []).mono (by decide), fun s hs ↦ ih s hs _⟩

/-! ## Functions and programs

A function adds the annotation of its result to what its body is reported about.  The passes over
the whole program are before the bodies, and each has topics of its own. -/

theorem Rule.topic_resultIssue? (function typeName : String) (p : Position) :
    KeepTo [.printing, .annotating]
      ((resultIssue? function typeName).toList.map (.located · p)) := by
  refine keepTo_reports ?_ p
  unfold resultIssue?
  split
  · rintro _ ⟨⟩
    exact List.mem_cons_self
  · split <;> rintro _ ⟨⟩
    exact List.mem_cons_of_mem _ List.mem_cons_self

/-- A function keeps to the topics of a body and to the annotation of its result. -/
theorem FnDecl.topic_events (σ : Site) (f : FnDecl) :
    KeepTo (.printing :: Topic.ofBody) (Event.diagnostics (f.events σ)) := by
  rw [diagnostics_events, keepTo_append, keepTo_append]
  exact ⟨(Rule.topic_resultIssue? _ _ _).mono (by decide),
    ((Scope.loop_params f.name).topic_events f.params []).mono (by decide),
    ((Stmt.topic_events _).2 f.body _).mono (by decide)⟩

namespace Registry

/-- A function that is not installed is reported for its name. -/
theorem topic_issue? (r : Registry) (f : FnDecl) :
    KeepTo [.installing] ((r.issue? f).toList.map (.located · f.position)) := by
  refine keepTo_reports ?_ _
  unfold issue?
  split
  · rintro _ ⟨⟩
    exact List.mem_singleton.2 rfl
  · split <;> rintro _ ⟨⟩
    exact List.mem_singleton.2 rfl

theorem topic_installEvents (ds : List Decl) : ∀ (r : Registry) (i : Nat),
    KeepTo [.installing] (Event.diagnostics (r.installEvents i ds)) := by
  induction ds with
  | nil => exact fun _ _ ↦ keepTo_nil
  | cons d ds ih =>
    intro r i
    cases d with
    | global v => exact ih r (i + 1)
    | function f =>
      rw [installEvents, Event.diagnostics_cons, Event.diagnostics_append, diagnostics_reports]
      exact keepTo_append.2 ⟨keepTo_nil, keepTo_append.2 ⟨r.topic_issue? f, ih _ _⟩⟩

theorem topic_entryEvents (r : Registry) (entry : String) :
    KeepTo [.entry] (Event.diagnostics (r.entryEvents entry)) := by
  unfold entryEvents
  split
  · exact List.forall_mem_singleton.2 (List.mem_singleton.2 rfl)
  · rw [Event.diagnostics_append, diagnostics_reports, diagnostics_reports, keepTo_append]
    constructor
    all_goals
      refine keepTo_reports ?_ _
      split <;> rintro _ ⟨⟩
      exact List.mem_singleton.2 rfl

end Registry

/-! ## What is logged besides reports

Of the events that are no reports, what matters is whether they belong to the check of a function.
The passes over the declarations log none of these, and the declarations of a function none that
belongs to an expression. -/

/-- The event belongs to the check of a function. -/
def Event.isOfFunction : Event → Bool
  | checkingFunction _ _ | declaringLocal _ _ | checkingStatement _ | checkingExpression _
  | checkedFunction _ _ => true
  | _ => false

/-- A diagnostic is among those of the events if it was reported. -/
theorem Event.mem_diagnostics {d : Diagnostic} {es : List Event} :
    d ∈ Event.diagnostics es ↔ .reported d ∈ es := by
  rw [Event.diagnostics, List.mem_filterMap]
  constructor
  · rintro ⟨e, he, hd⟩
    cases e with
    | reported d' =>
      cases hd
      exact he
    | _ => cases hd
  · exact fun h ↦ ⟨_, h, rfl⟩

theorem mem_reports {i : Option Issue} {p : Position} {e : Event} (h : e ∈ reports i p) :
    ∃ d, e = .reported d := by
  cases i with
  | none => cases h
  | some i => exact ⟨_, List.mem_singleton.1 h⟩

namespace Scope

theorem mem_declareEvents {f : Scope} {v : VarDecl} {void duplicate : Issue} {e : Event}
    (h : e ∈ f.declareEvents v void duplicate) : ∃ d, e = .reported d :=
  (List.mem_append.1 h).elim mem_reports mem_reports

theorem mem_paramEvents {function : String} {e : Event} (vs : List VarDecl) :
    ∀ f : Scope, e ∈ f.paramEvents function vs → ∃ d, e = .reported d := by
  induction vs with
  | nil => exact fun f h ↦ absurd h List.not_mem_nil
  | cons v vs ih => exact fun f h ↦ (List.mem_append.1 h).elim mem_declareEvents (ih _)

theorem mem_localEvents {e : Event} (vs : List VarDecl) : ∀ f : Scope, e ∈ f.localEvents vs →
    (∃ name p, e = .declaringLocal name p) ∨ ∃ d, e = .reported d := by
  induction vs with
  | nil => exact fun f h ↦ absurd h List.not_mem_nil
  | cons v vs ih =>
    intro f h
    rcases List.mem_cons.1 h with rfl | h
    · exact .inl ⟨_, _, rfl⟩
    · exact (List.mem_append.1 h).elim (.inr ∘ mem_declareEvents) (ih _)

end Scope

namespace Event

theorem isOfFunction_reports (i : Option Issue) (p : Position) :
    ∀ e ∈ reports i p, e.isOfFunction = false := by
  intro e he
  obtain ⟨d, rfl⟩ := mem_reports he
  rfl

theorem isOfFunction_installEvents (ds : List Decl) : ∀ (r : Registry) (i : Nat),
    ∀ e ∈ r.installEvents i ds, e.isOfFunction = false := by
  induction ds with
  | nil => exact fun _ _ ↦ List.forall_mem_nil _
  | cons d ds ih =>
    intro r i
    cases d with
    | global v => exact ih r (i + 1)
    | function f =>
      exact List.forall_mem_cons.2 ⟨rfl, List.forall_mem_append.2
        ⟨isOfFunction_reports _ _, ih _ (i + 1)⟩⟩

theorem isOfFunction_entryEvents (r : Registry) (entry : String) :
    ∀ e ∈ r.entryEvents entry, e.isOfFunction = false := by
  rw [Registry.entryEvents]
  cases r.get? entry with
  | none => exact List.forall_mem_singleton.2 rfl
  | some s => exact List.forall_mem_append.2 ⟨isOfFunction_reports _ _, isOfFunction_reports _ _⟩

theorem isOfFunction_globalEvents (vs : List VarDecl) : ∀ f : Scope,
    ∀ e ∈ f.globalEvents vs, e.isOfFunction = false := by
  induction vs with
  | nil => exact fun _ ↦ List.forall_mem_nil _
  | cons v vs ih =>
    exact fun f ↦ List.forall_mem_cons.2 ⟨rfl, List.forall_mem_append.2
      ⟨isOfFunction_reports _ _, ih _⟩⟩

end Event

end Typewright
