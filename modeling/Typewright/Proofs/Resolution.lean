import Typewright.Proofs.Agreement
import Typewright.Proofs.Isolation

/-!
# Names are resolved lexically

A check keeps a stack of scopes and changes it as it goes: blocks open and close scopes, a
declaration binds its name unless that is taken, and an annotation that was refused binds it to no
type.  What a name stands for at an expression is still a matter of the text alone.  `Stmt.exprs Γ`
lists the expressions of a statement, each with the declarations around it, and `Env.varDecl?`
looks for a name in the nearest block that declares it, then among the parameters and then among the
globals.  `Env.lexical` is the context with these declarations in its scopes, as they stand in the
text.

The check of a program is the check of its expressions in these contexts.  `Interleaves log logs`
says that `log` is made up of `logs` in order and of events in between that belong to no expression.
Of the log of a program this is said in `Program.check_resolves`, together with what it comes to for
the single variable or assignment.

## What a log has to show

The log is what the check leaves of an expression that it came to, so the statement is about the
log.  Nothing can be left out of it and nothing added, because the events in between are known not
to belong to expressions, and none of them reports a missing name.

What it means for a name to be resolved is `Expr.Resolves`, one clause for each case: declared with
a type, declared without one, or not declared, for a variable and for the target of an assignment.
The clauses say what the check comes to by the types that declarations name.
-/

set_option autoImplicit false

namespace Typewright

open Diagnostic

/-! ## Contexts from declarations

`Env.lexical` does not declare anything: it has all declarations of a block in a scope, also those
whose name is taken.  A lookup finds the first of a name, so this is the same as declaring them in
order, and a check cannot tell the difference. -/

/-- The context that has the declarations in its scopes as they stand. -/
def Env.lexical (Γ : Env) (r : Registry) : Context :=
  ⟨⟨Γ.scopes.map fun vs ↦ vs.map fun v ↦ (v.name, v.binding)⟩, r⟩

/-- A search in a list of bindings finds the first declaration of the name. -/
theorem VarDecl.lookup_map_binding (vs : List VarDecl) (x : String) :
    (vs.map fun v ↦ (v.name, v.binding)).lookup x
      = (vs.find? (·.name = x)).map VarDecl.binding := by
  induction vs with
  | nil => rfl
  | cons v vs ih =>
    by_cases hv : v.name = x
    · simp [hv]
    · have hne : (x == v.name) = false := beq_false_of_ne fun heq ↦ hv heq.symm
      simpa [List.lookup_cons, hv, hne] using ih

/-- A name stands for the first declaration of it in the nearest scope that declares it. -/
theorem Env.lookup_lexical (Γ : Env) (r : Registry) (x : String) :
    (Γ.lexical r).scopes.lookup x = (Γ.varDecl? x).map VarDecl.binding := by
  obtain ⟨scopes, functions⟩ := Γ
  induction scopes with
  | nil => rfl
  | cons vs scopes ih =>
    have hlookup : (Env.lexical ⟨vs :: scopes, functions⟩ r).scopes.lookup x
        = ((vs.map fun v ↦ (v.name, v.binding)).lookup x).or
          ((Env.lexical ⟨scopes, functions⟩ r).scopes.lookup x) := Scopes.lookup_push _ _ _
    have henter := Env.varDecl?_enter ⟨scopes, functions⟩ vs x
    rw [hlookup, ih, VarDecl.lookup_map_binding, ← Option.map_or, ← henter]
    rfl

/-- An exact context cannot be told from the declarations as they stand. -/
theorem Context.Exact.check_eq {Δ : Context} {Γ : Env} (h : Δ.Exact Γ) (e : Expr) :
    e.check Δ = e.check (Γ.lexical Δ.registry) :=
  Expr.check_congr ⟨fun x ↦ (h.var x).trans (Γ.lookup_lexical _ x).symm, fun _ ↦ rfl⟩ e

/-! ## Logs of expressions

Which events belong to expressions, and how a log is put together from the logs of expressions.  The
lemmas on `Interleaves` follow the way in which the events of statements are put together: one after
the other, with events around, in a scope, along a list. -/

/-- The issue is that a name is not declared. -/
def Issue.isResolution : Issue → Bool
  | variableNotDeclared _ | targetNotDeclared _ => true
  | _ => false

/-- The event does not belong to the visit of an expression, and no name is missing in it. -/
def Event.isOutside : Event → Bool
  | checkingExpression _ => false
  | reported d => !d.issue.isResolution
  | _ => true

/-- None of the events belongs to an expression. -/
def Outside (es : List Event) : Prop := ∀ e ∈ es, e.isOutside = true

@[simp] theorem outside_nil : Outside [] := List.forall_mem_nil _

@[simp] theorem outside_cons {e : Event} {es : List Event} :
    Outside (e :: es) ↔ e.isOutside = true ∧ Outside es :=
  List.forall_mem_cons

@[simp] theorem outside_append {es fs : List Event} :
    Outside (es ++ fs) ↔ Outside es ∧ Outside fs :=
  List.forall_mem_append

/-- The log is made up of these logs in order, and of events that belong to no expression. -/
inductive Interleaves : List Event → List (List Event) → Prop
  | last {es : List Event} (hes : Outside es) : Interleaves es []
  | next {es log rest : List Event} {logs : List (List Event)} (hes : Outside es)
      (h : Interleaves rest logs) : Interleaves (es ++ (log ++ rest)) (log :: logs)

namespace Interleaves

variable {a b es : List Event} {as bs : List (List Event)}

theorem one (log : List Event) : Interleaves log [log] := by
  have h : Interleaves ([] ++ (log ++ [])) [log] := .next outside_nil (.last outside_nil)
  rwa [List.nil_append, List.append_nil] at h

theorem outside_append (hes : Outside es) (h : Interleaves a as) : Interleaves (es ++ a) as := by
  cases h with
  | last h => exact .last (Typewright.outside_append.2 ⟨hes, h⟩)
  | next h hrest =>
    rw [← List.append_assoc]
    exact .next (Typewright.outside_append.2 ⟨hes, h⟩) hrest

theorem append (ha : Interleaves a as) (hb : Interleaves b bs) :
    Interleaves (a ++ b) (as ++ bs) := by
  induction ha with
  | last h => exact outside_append h hb
  | next h _ ih =>
    rw [List.append_assoc, List.append_assoc]
    exact .next h ih

theorem append_outside (ha : Interleaves a as) (hes : Outside es) : Interleaves (a ++ es) as := by
  have h := ha.append (.last hes)
  rwa [List.append_nil] at h

theorem cons_outside {e : Event} (he : e.isOutside = true) (h : Interleaves a as) :
    Interleaves (e :: a) as := by
  have hone : Outside [e] := outside_cons.2 ⟨he, outside_nil⟩
  exact outside_append hone h

theorem inScope (σ : Site) (h : Interleaves a as) : Interleaves (σ.inScope a) as :=
  .cons_outside rfl (h.append_outside (outside_cons.2 ⟨rfl, outside_nil⟩))

theorem flatMap {α : Type} {f : α → List Event} {g : α → List (List Event)} {xs : List α}
    (h : ∀ x ∈ xs, Interleaves (f x) (g x)) : Interleaves (xs.flatMap f) (xs.flatMap g) := by
  induction xs with
  | nil => exact .last outside_nil
  | cons x xs ih =>
    rw [List.forall_mem_cons] at h
    rw [List.flatMap_cons, List.flatMap_cons]
    exact h.1.append (ih h.2)

end Interleaves

/-! ## Events outside of expressions

A name that is missing is reported by an expression and by nothing else.  All that is needed for it
are the topics that the other parts of a check keep to, and that they visit no expression. -/

theorem Issue.isResolution_iff {i : Issue} : i.isResolution = true ↔ i.topic = .resolving := by
  cases i <;> simp [isResolution, topic]

/-- Events are outside if no expression is visited and no name is missing in them. -/
theorem outside_of_keepTo {es : List Event} {T : List Topic}
    (hvisits : ∀ p, .checkingExpression p ∉ es) (h : KeepTo T (Event.diagnostics es))
    (hT : .resolving ∉ T) : Outside es := by
  intro e he
  cases e with
  | checkingExpression p => exact absurd he (hvisits p)
  | reported d =>
    have hother : d.issue.isResolution = false := by
      rw [← Bool.not_eq_true, Issue.isResolution_iff]
      exact fun htopic ↦ hT (htopic ▸ h d (Event.mem_diagnostics.2 he))
    rw [Event.isOutside, hother]
    rfl
  | _ => rfl

theorem outside_reports {i : Option Issue} {p : Position} {T : List Topic}
    (h : KeepTo T (i.toList.map (.located · p))) (hT : .resolving ∉ T) :
    Outside (reports i p) := by
  refine outside_of_keepTo (fun _ hmem ↦ ?_) (diagnostics_reports i p ▸ h) hT
  obtain ⟨d, hd⟩ := mem_reports hmem
  cases hd

/-- A pass that does not belong to the check of a function is outside. -/
theorem outside_of_isOfFunction {es : List Event} {T : List Topic}
    (hes : ∀ e ∈ es, e.isOfFunction = false) (h : KeepTo T (Event.diagnostics es))
    (hT : .resolving ∉ T) : Outside es :=
  outside_of_keepTo (fun _ hmem ↦ nomatch hes _ hmem) h hT

namespace Scope

theorem outside_localEvents (vs : List VarDecl) (f : Scope) : Outside (f.localEvents vs) := by
  refine outside_of_keepTo (fun _ hmem ↦ ?_) (loop_locals.topic_events vs f) (by decide)
  rcases mem_localEvents vs f hmem with ⟨_, _, h⟩ | ⟨_, h⟩ <;> cases h

theorem outside_paramEvents (function : String) (vs : List VarDecl) (f : Scope) :
    Outside (f.paramEvents function vs) := by
  refine outside_of_keepTo (fun _ hmem ↦ ?_) ((loop_params function).topic_events vs f)
    (by decide)
  obtain ⟨_, h⟩ := mem_paramEvents vs f hmem
  cases h

end Scope

/-! ## Statements

An induction over statements, for all sites with an exact context.  It meets every expression once,
and the context at hand there is exact for the declarations around. -/

/-- What the check of an expression comes to where these names are declared. -/
abbrev Env.lexicalCheck (r : Registry) (o : Env × Expr) : Checked := o.2.check (o.1.lexical r)

section Occurrences

variable {σ : Site} {Γ : Env} (h : σ.context.Exact Γ)

include h

theorem Expr.interleaves_log (e : Expr) : Interleaves (e.check σ.context).log
    [(Env.lexicalCheck σ.registry (Γ, e)).log] := by
  rw [h.check_eq e]
  exact .one _

theorem Expr.interleaves_predicate (statement : String) (p : Position) (e : Expr) :
    Interleaves (e.predicateEvents σ.context statement p)
      [(Env.lexicalCheck σ.registry (Γ, e)).log] :=
  (e.interleaves_log h).append_outside
    (outside_reports (Rule.topic_predicateIssue? _ _ p) (by decide))

theorem Expr.interleaves_loopCondition (p : Position) (e : Expr) :
    Interleaves (e.loopConditionEvents σ.context p) [(Env.lexicalCheck σ.registry (Γ, e)).log] := by
  unfold loopConditionEvents
  split
  · exact e.interleaves_log h
  · exact e.interleaves_predicate h "for" p

theorem Expr.interleaves_return (ret : Option Ty) (p : Position) (e : Expr) :
    Interleaves (e.returnEvents σ ret p) [(Env.lexicalCheck σ.registry (Γ, e)).log] :=
  (e.interleaves_log h).append_outside
    (outside_reports (Rule.topic_returnIssue? _ _ _ _ p) (by decide))

end Occurrences

/-- **The log of a statement is that of its expressions**, where names are resolved lexically, and
so it is for a block. -/
theorem Stmt.interleaves_events (ret : Option Ty) :
    (∀ (s : Stmt) (σ : Site) (Γ : Env), σ.context.Exact Γ → Interleaves (s.events σ ret)
      ((s.exprs Γ).map fun o ↦ (Env.lexicalCheck σ.registry o).log)) ∧
    ∀ (b : Block) (σ : Site) (Γ : Env), σ.context.Exact Γ → Interleaves (b.events σ ret)
      ((b.exprs Γ).map fun o ↦ (Env.lexicalCheck σ.registry o).log) := by
  refine Stmt.induct ?block ?cond ?whileLoop ?forLoop ?ret ?jump ?expr ?body
  case block => exact fun b ih σ Γ h ↦ .cons_outside rfl (ih σ Γ h)
  -- the scope around the branches is empty, so the environment is the same there
  case cond =>
    intro p c a b iha ihb σ Γ h
    rw [exprs, List.map_cons, List.map_append]
    exact .cons_outside rfl ((c.interleaves_predicate h "if" p).append
      (.inScope σ ((iha (σ.push []) Γ h.push_nil).append (ihb (σ.push []) Γ h.push_nil))))
  case whileLoop =>
    intro p c b ih σ Γ h
    exact .cons_outside rfl ((c.interleaves_predicate h "while" p).append (ih σ.inLoop Γ h))
  case forLoop =>
    intro p i c s b ih σ Γ h
    exact .cons_outside rfl ((((i.interleaves_log h).append
      (c.interleaves_loopCondition h p)).append (s.interleaves_log h)).append (ih σ.inLoop Γ h))
  case ret => exact fun p e σ Γ h ↦ .cons_outside rfl (e.interleaves_return h ret p)
  case jump =>
    exact fun p j σ Γ _ ↦ .last (outside_cons.2
      ⟨rfl, outside_reports (Rule.topic_jumpIssue? _ j p) (by decide)⟩)
  case expr => exact fun e σ Γ h ↦ .cons_outside rfl (e.interleaves_log h)
  case body =>
    intro p vars ss ih σ Γ h
    rw [Block.exprs, exprsAll_eq_flatMap, List.map_flatMap, Block.events, eventsAll_eq_flatMap]
    exact .inScope σ (.outside_append (Scope.outside_localEvents vars [])
      (.flatMap fun s hs ↦ ih s hs (σ.push (Scope.declareAll [] vars)) _ (h.push vars)))

/-- The expressions of a statement after its check, each checked where the names around it are
declared, and so for a block. -/
theorem Stmt.exprs_annotate :
    (∀ (s : Stmt) (Δ : Context) (Γ : Env), Δ.Exact Γ → (s.annotate Δ).exprs Γ
      = (s.exprs Γ).map fun o ↦ (o.1, (Env.lexicalCheck Δ.registry o).expr)) ∧
    ∀ (b : Block) (Δ : Context) (Γ : Env), Δ.Exact Γ → (b.annotate Δ).exprs Γ
      = (b.exprs Γ).map fun o ↦ (o.1, (Env.lexicalCheck Δ.registry o).expr) := by
  refine Stmt.induct ?block ?cond ?whileLoop ?forLoop ?ret ?jump ?expr ?body
  case block => exact fun b ih Δ Γ h ↦ ih Δ Γ h
  case cond =>
    intro p c a b iha ihb Δ Γ h
    rw [annotate, exprs, exprs, iha _ Γ h.push_nil, ihb _ Γ h.push_nil, List.map_cons,
      List.map_append, h.check_eq c]
    rfl
  case whileLoop =>
    intro p c b ih Δ Γ h
    rw [annotate, exprs, exprs, ih Δ Γ h, List.map_cons, h.check_eq c]
  case forLoop =>
    intro p i c s b ih Δ Γ h
    rw [annotate, exprs, exprs, ih Δ Γ h, List.map_cons, List.map_cons, List.map_cons,
      h.check_eq i, h.check_eq c, h.check_eq s]
  case ret =>
    intro p e Δ Γ h
    rw [annotate, exprs, exprs, List.map_singleton, h.check_eq e]
  case jump => exact fun p j Δ Γ _ ↦ rfl
  case expr =>
    intro e Δ Γ h
    rw [annotate, exprs, exprs, List.map_singleton, h.check_eq e]
  case body =>
    intro p vars ss ih Δ Γ h
    rw [Block.annotate, Block.exprs, Block.exprs, annotateAll_eq_map, exprsAll_eq_flatMap,
      exprsAll_eq_flatMap, List.flatMap_map, List.map_flatMap]
    exact List.flatMap_congr fun s hs ↦ ih s hs _ _ (h.push vars)

/-! ## Functions and programs

A function adds its parameters, and the program leaves out the functions that are not installed. -/

/-- The log of a function is that of the expressions in its body. -/
theorem FnDecl.interleaves_events {σ : Site} {Γ : Env} (h : σ.context.Exact Γ) (f : FnDecl) :
    Interleaves (f.events σ) ((f.body.exprs (Γ.enter f.params)).map fun o ↦
      (Env.lexicalCheck σ.registry o).log) := by
  have hbody := (Stmt.interleaves_events (Ty.ofName? f.returnType)).2 f.body
    ((σ.inFunction f.name).push f.paramScope) _ (h.push f.params)
  have hparams := Scope.outside_paramEvents f.name f.params []
  have hresult := outside_reports (Rule.topic_resultIssue? f.name f.returnType f.position)
    (by decide)
  exact .cons_outside rfl (.append_outside
    (.outside_append hresult (.inScope σ (.outside_append hparams hbody)))
    (outside_cons.2 ⟨rfl, outside_nil⟩))

namespace Decl

theorem interleaves_events {σ : Site} {Γ : Env} (h : σ.context.Exact Γ) (d : Decl) (i : Nat) :
    Interleaves (d.events σ i) ((d.installed? σ.registry i).toList.flatMap fun f ↦
      (f.body.exprs (Γ.enter f.params)).map fun o ↦ (Env.lexicalCheck σ.registry o).log) := by
  cases d with
  | global v => exact .last outside_nil
  | function f =>
    by_cases hf : σ.registry.isInstalled f.name i
    · have hinstalled : (function f).installed? σ.registry i = some f := Option.filter_some_pos hf
      rw [events, if_pos hf, hinstalled, Option.toList_some, List.flatMap_singleton]
      exact f.interleaves_events h
    · have hskipped : (function f).installed? σ.registry i = none :=
        Option.filter_some_neg (eq_false_of_ne_true hf)
      rw [events, if_neg hf, hskipped]
      exact .last (outside_cons.2 ⟨rfl, outside_nil⟩)

theorem eventsFrom_eq_flatMap (σ : Site) (ds : List Decl) : ∀ i : Nat,
    eventsFrom σ i ds = (ds.zipIdx i).flatMap fun x ↦ x.1.events σ x.2 := by
  induction ds with
  | nil => exact fun _ ↦ rfl
  | cons d ds ih =>
    intro i
    rw [eventsFrom, ih, List.zipIdx_cons, List.flatMap_cons]

end Decl

namespace Program

/-- The log of the last pass is that of the expressions of installed functions. -/
theorem interleaves_functions (p : Program) : Interleaves (Decl.eventsFrom p.site 0 p.decls)
    ((p.installed p.registry).flatMap fun f ↦ (f.body.exprs (p.env.enter f.params)).map fun o ↦
      (Env.lexicalCheck p.registry o).log) := by
  rw [Decl.eventsFrom_eq_flatMap, installed, List.filterMap_eq_flatMap_toList, List.flatMap_assoc]
  exact .flatMap fun x _ ↦ x.1.interleaves_events p.exact_site x.2

theorem interleaves_events (p : Program) (entry : String) : Interleaves (p.events entry)
    ((p.installed p.registry).flatMap fun f ↦ (f.body.exprs (p.env.enter f.params)).map fun o ↦
      (Env.lexicalCheck p.registry o).log) := by
  have hinstall := outside_of_isOfFunction (Event.isOfFunction_installEvents p.decls .empty 0)
    (Registry.topic_installEvents p.decls .empty 0) (by decide)
  have hentry := outside_of_isOfFunction (Event.isOfFunction_entryEvents p.registry entry)
    (p.registry.topic_entryEvents entry) (by decide)
  have hglobals := outside_of_isOfFunction (Event.isOfFunction_globalEvents p.globals [])
    (Scope.loop_globals.topic_events p.globals []) (by decide)
  refine .append_outside (.append_outside (.outside_append ?_ p.interleaves_functions) ?_) ?_ <;>
    simp [hinstall, hentry, hglobals, Event.isOutside]

theorem exprs_annotate (p : Program) (f : FnDecl) :
    (f.annotate p.site.context).body.exprs (p.env.enter f.params)
      = (f.body.exprs (p.env.enter f.params)).map fun o ↦
        (o.1, (Env.lexicalCheck p.registry o).expr) :=
  Stmt.exprs_annotate.2 f.body _ _ (p.exact_site.push f.params)

end Program

/-! ## Variables and targets

What the check of a single node comes to, in a context with the given declarations. -/

/-- Checked in `Δ`, a variable or the target of an assignment is what `Γ` declares it to be, and is
reported as not declared if `Γ` does not declare it. -/
structure Expr.Resolves (Γ : Env) (Δ : Context) (e : Expr) : Prop where
  /-- A variable has the type that its declaration names, or none. -/
  var : ∀ {n : Note} {x : String} {v : VarDecl}, e = .var n x → Γ.varDecl? x = some v →
    (∀ t, (e.check Δ).ty = some t ↔ v.HasType t) ∧ (e.check Δ).diagnostics = []
  unknownVar : ∀ {n : Note} {x : String}, e = .var n x → Γ.varDecl? x = none →
    (e.check Δ).ty = none ∧
      (e.check Δ).diagnostics = [.located (.variableNotDeclared x) n.position]
  /-- An assignment has the type of its target, if the value has it too or is poisoned.  Only the
  value is reported about then. -/
  target : ∀ {n : Note} {x : String} {value : Expr} {v : VarDecl} {t : Ty},
    e = .assign n x value → Γ.varDecl? x = some v → v.HasType t →
    (∀ s, (value.check Δ).ty = some s → s = t) →
      (e.check Δ).ty = some t ∧ (e.check Δ).diagnostics = (value.check Δ).diagnostics
  /-- A value of another type is reported, after what is reported about the value itself. -/
  mismatch : ∀ {n : Note} {x : String} {value : Expr} {v : VarDecl} {t s : Ty},
    e = .assign n x value → Γ.varDecl? x = some v → v.HasType t →
    (value.check Δ).ty = some s → s ≠ t →
      (e.check Δ).ty = none ∧ (e.check Δ).diagnostics
        = (value.check Δ).diagnostics ++ [.located (.assignmentMismatch t s) n.position]
  /-- A target whose declaration names no type takes any value, and the assignment has no type. -/
  poisonedTarget : ∀ {n : Note} {x : String} {value : Expr} {v : VarDecl},
    e = .assign n x value → Γ.varDecl? x = some v → (∀ t, ¬ v.HasType t) →
      (e.check Δ).ty = none ∧ (e.check Δ).diagnostics = (value.check Δ).diagnostics
  /-- The value of an assignment to nothing is not looked at. -/
  unknownTarget : ∀ {n : Note} {x : String} {value : Expr}, e = .assign n x value →
    Γ.varDecl? x = none → (e.check Δ).ty = none ∧
      (e.check Δ).diagnostics = [.located (.targetNotDeclared x) n.position]

namespace Expr

theorem diagnostics_var (Δ : Context) (n : Note) (x : String) : ((var n x).check Δ).diagnostics
    = (Rule.var x (Δ.scopes.lookup x)).issues.map (.located · n.position) :=
  diagnostics_check Δ (var n x)

/-- An assignment to a name that `Γ` declares follows the rule for what the declaration names. -/
theorem check_assign_lexical {Γ : Env} {x : String} {v : VarDecl} (hx : Γ.varDecl? x = some v)
    (r : Registry) (n : Note) (value : Expr) {s : Option Ty}
    (hs : (value.check (Γ.lexical r)).ty = s) :
    ((assign n x value).check (Γ.lexical r)).ty = (Rule.assign v.binding s).ty ∧
      ((assign n x value).check (Γ.lexical r)).diagnostics
        = (value.check (Γ.lexical r)).diagnostics
          ++ (Rule.assign v.binding s).issues.map (.located · n.position) := by
  have hlookup := Γ.lookup_lexical r x
  rw [hx, Option.map_some] at hlookup
  rw [ty_check, diagnostics_check, visited_assign_of_some hlookup, ruling, hlookup,
    List.flatMap_singleton, ← hs]
  exact ⟨rfl, rfl⟩

/-- **Names are resolved lexically** in a context that has the declarations in its scopes. -/
theorem resolves_lexical (Γ : Env) (r : Registry) (e : Expr) : e.Resolves Γ (Γ.lexical r) where
  var := by
    rintro n x v rfl hx
    have hlookup := Γ.lookup_lexical r x
    rw [hx, Option.map_some] at hlookup
    refine ⟨fun t ↦ ?_, ?_⟩
    · rw [ty_check, ruling, hlookup, Rule.var, VarDecl.ty?_binding, VarDecl.hasType_iff]
    · rw [diagnostics_var, hlookup]
      rfl
  unknownVar := by
    rintro n x rfl hx
    have hlookup := Γ.lookup_lexical r x
    rw [hx, Option.map_none] at hlookup
    rw [ty_check, ruling, diagnostics_var, hlookup]
    exact ⟨rfl, rfl⟩
  target := by
    rintro n x value v t rfl hx ht hvalue
    obtain ⟨hty, hdiagnostics⟩ := check_assign_lexical hx r n value rfl
    -- a value of unknown type is as good as one of the type of the target
    have hrule : Rule.assign v.binding (value.check (Γ.lexical r)).ty = .accept t := by
      cases hs : (value.check (Γ.lexical r)).ty with
      | none => simp [Rule.assign, VarDecl.hasType_iff.1 ht]
      | some s => simp [Rule.assign, VarDecl.hasType_iff.1 ht, Ruling.acceptIf, hvalue s hs]
    rw [hty, hdiagnostics, hrule]
    exact ⟨rfl, List.append_nil _⟩
  mismatch := by
    rintro n x value v t s rfl hx ht hs hne
    obtain ⟨hty, hdiagnostics⟩ := check_assign_lexical hx r n value hs
    have hrule : Rule.assign v.binding (some s) = .refuse (.assignmentMismatch t s) := by
      simp [Rule.assign, VarDecl.hasType_iff.1 ht, Ruling.acceptIf, hne]
    rw [hty, hdiagnostics, hrule]
    exact ⟨rfl, rfl⟩
  poisonedTarget := by
    rintro n x value v rfl hx hv
    obtain ⟨hty, hdiagnostics⟩ := check_assign_lexical hx r n value rfl
    have hnone : Ty.ofVariable? v.typeName = none :=
      Option.eq_none_iff_forall_ne_some.2 fun t ht ↦ hv t (VarDecl.hasType_iff.2 ht)
    have hrule : Rule.assign v.binding (value.check (Γ.lexical r)).ty = .poison := by
      simp [Rule.assign, hnone]
    rw [hty, hdiagnostics, hrule]
    exact ⟨rfl, List.append_nil _⟩
  unknownTarget := by
    rintro n x value rfl hx
    have hlookup := Γ.lookup_lexical r x
    rw [hx, Option.map_none] at hlookup
    rw [ty_check, diagnostics_check, visited_assign_of_none hlookup, ruling, hlookup]
    exact ⟨rfl, rfl⟩

end Expr

namespace Program

/-- **Names are resolved lexically, also in programs with mistakes.**  Every expression of an
installed function is checked where the names stand for what the text declares them to be: the log
of the check is made up of the logs of these checks, no name is missing outside of them, and the
expressions that come out are those of these checks.  So wherever the check comes to a variable or
to an assignment, the nearest declaration around it decides, the first one of a block. -/
theorem check_resolves (p : Program) (entry : String) : ∃ q c, p.check entry = .ok (q, c) ∧
    Interleaves c.log.toList ((p.installed c.registry).flatMap fun f ↦
      (f.body.exprs (p.env.enter f.params)).map fun o ↦ (Env.lexicalCheck c.registry o).log) ∧
    (∀ (i : Nat) (f : FnDecl), p.decls[i]? = some (.function f) →
      c.registry.isInstalled f.name i → ∃ g, q.decls[i]? = some (.function g) ∧
        g.body.exprs (p.env.enter f.params) = (f.body.exprs (p.env.enter f.params)).map fun o ↦
          (o.1, (Env.lexicalCheck c.registry o).expr)) ∧
    ∀ f ∈ p.installed c.registry, ∀ o ∈ f.body.exprs (p.env.enter f.params), ∀ path m,
      Expr.Visits (o.1.lexical c.registry) o.2 path m →
        (m.check (o.1.lexical c.registry)).log <:+: (Env.lexicalCheck c.registry o).log ∧
        (m.check (o.1.lexical c.registry)).expr ∈ (Env.lexicalCheck c.registry o).expr.nodes ∧
        m.Resolves o.1 (o.1.lexical c.registry) := by
  refine ⟨p.annotate, p.checked entry, p.check_eq entry, ?_, fun i f hi hf ↦ ?_,
    fun f _ o _ path m hm ↦ ⟨hm.log_infix, hm.mem_nodes, m.resolves_lexical o.1 _⟩⟩
  · have hlog : (p.checked entry).log.toList = p.events entry := by
      simp [checked, Checker.move, Checker.start]
    rw [hlog]
    exact p.interleaves_events entry
  · refine ⟨f.annotate p.site.context, ?_, p.exprs_annotate f⟩
    exact (getElem?_annotate_of_installed (g := f.annotate p.site.context) hf).2 ⟨f, hi, hf, rfl⟩

/-- The program

`func main(x Int, z Int) Void { var Void x; var Int x; { x; y; z = true; x = 1; } }`,

where `z` is a parameter and `y` is not declared. -/
def refusedFirst : Program :=
  ⟨[.function ⟨"main", [⟨"x", "Int", ⟨1, 11⟩⟩, ⟨"z", "Int", ⟨1, 18⟩⟩], "Void", ⟨⟨1, 30⟩,
    [⟨"x", "Void", ⟨1, 32⟩⟩, ⟨"x", "Int", ⟨1, 44⟩⟩], [.block ⟨⟨1, 55⟩, [],
      [.expr (.var ⟨⟨1, 57⟩, none⟩ "x"), .expr (.var ⟨⟨1, 60⟩, none⟩ "y"),
        .expr (.assign ⟨⟨1, 63⟩, none⟩ "z" (.bool ⟨⟨1, 67⟩, none⟩ true)),
        .expr (.assign ⟨⟨1, 73⟩, none⟩ "x" (.int ⟨⟨1, 77⟩, none⟩ 1))]⟩]⟩, ⟨1, 1⟩⟩]⟩

/-- The name `x` stands for the first of the local variables, which has no type, and not for the
second one or the parameter; nothing is reported about it, nor about an assignment to it.  The
target `z` is the parameter, and a value of another type is reported. -/
theorem check_resolves_refusedFirst : ∃ q c, refusedFirst.check "main" = .ok (q, c) ∧
    ∃ x y z x' : Checked, Interleaves c.log.toList [x.log, y.log, z.log, x'.log] ∧
      x.ty = none ∧ x.diagnostics = [] ∧
      y.diagnostics = [.located (.variableNotDeclared "y") ⟨1, 60⟩] ∧
      z.ty = none ∧ z.diagnostics = [.located (.assignmentMismatch .int .bool) ⟨1, 63⟩] ∧
      x'.ty = none ∧ x'.diagnostics = [] := by
  obtain ⟨q, c, hcheck, hlog, -, hresolves⟩ := check_resolves refusedFirst "main"
  cases (check_eq refusedFirst "main").symm.trans hcheck
  have hexprs := hresolves _ List.mem_cons_self
  have hx := (hexprs _ List.mem_cons_self [] _ .here).2.2
  have hy := (hexprs _ (List.mem_cons_of_mem _ List.mem_cons_self) [] _ .here).2.2
  have hz := (hexprs _ (List.mem_of_getElem? (i := 2) rfl) [] _ .here).2.2
  have hx' := (hexprs _ (List.mem_of_getElem? (i := 3) rfl) [] _ .here).2.2
  -- the first `x` is declared with `Void`, which no variable can have
  have hvoid : ∀ t, ¬ VarDecl.HasType ⟨"x", "Void", ⟨1, 32⟩⟩ t := fun t ht ↦
    ht.2 (Option.some_inj.1 (Ty.ofName?_eq_some_iff.2 ht.1)).symm
  have hint : VarDecl.HasType ⟨"z", "Int", ⟨1, 18⟩⟩ .int := ⟨rfl, by decide⟩
  have hmismatch := hz.mismatch rfl rfl hint rfl (by decide)
  have hpoisoned := hx'.poisonedTarget rfl rfl hvoid
  refine ⟨_, _, hcheck, _, _, _, _, hlog, ?_, (hx.var rfl rfl).2, (hy.unknownVar rfl rfl).2,
    hmismatch.1, hmismatch.2, hpoisoned.1, hpoisoned.2⟩
  exact Option.eq_none_iff_forall_ne_some.2 fun t ht ↦ hvoid t (((hx.var rfl rfl).1 t).1 ht)

end Program

end Typewright
