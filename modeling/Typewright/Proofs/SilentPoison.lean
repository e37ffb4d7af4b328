import Typewright.Proofs.AnnotationReports
import Typewright.Proofs.Poison
import Typewright.Proofs.Resolution

/-!
# Poison is never silent

An expression without a type keeps the rules around it silent, so a program could be accepted by
mistake if nothing was reported about such an expression.  The rule of a node gives no type for one
of three reasons (`Expr.ruling_of_poisoned`).  It reports an issue, or a part that was visited has
no type, or the node is a source of poison: it uses a variable whose annotation was refused, or
calls a function whose annotation names no type for the result.

What is a source of poison was reported where it was declared.  So a check that comes to an
expression without a type reports something, here or there: `Check.poison_never_silent`.

The statement has two halves, because the second one needs a program around.  In a state of the
check alone the first half is the best that can be said: nothing in the state tells whether a
rejected variable was reported before, and a state in which it was not can be written down.  That
this does not happen is a fact about how a whole check binds names, and it takes what is known about
the declarations in scope at each expression: that each of them is looked at by the pass that binds
it.
-/

set_option autoImplicit false

namespace Typewright

/-! ## Expressions

From a node without a type down to the reason.  Every step either stops at an issue or at a source,
or goes to a part, so the induction is the one over the visited parts. -/

namespace Expr

/-- The node has no type because of what a name in it stands for: a variable whose annotation was
refused, or a function that has no type for its result. -/
inductive Poisons (Γ : Context) : Expr → Prop
  | var {n : Note} {x : String} (hx : Γ.scopes.lookup x = some .rejected) : Poisons Γ (.var n x)
  | target {n : Note} {x : String} {e : Expr} (hx : Γ.scopes.lookup x = some .rejected) :
      Poisons Γ (.assign n x e)
  | call {n : Note} {f : String} {args : List Expr} {s : Signature} (hf : f ≠ printName)
      (hs : Γ.registry.get? f = some s) (hresult : s.result? = none) : Poisons Γ (.call n f args)

end Expr

theorem Binding.eq_rejected_of_ty? {b : Binding} (h : b.ty? = none) : b = .rejected := by
  cases b with
  | typed t => cases h
  | rejected => rfl

theorem Ruling.issues_refuse (i : Issue) : (refuse i).issues ≠ [] := List.cons_ne_nil _ _

/-- A rule with one condition has an issue where it gives no type. -/
theorem Ruling.issues_acceptIf_of_poisoned {ok : Bool} {t : Ty} {i : Issue}
    (h : (acceptIf ok t i).ty = none) : (acceptIf ok t i).issues ≠ [] := by
  cases ok with
  | true => cases h
  | false => exact issues_refuse i

theorem Rule.issues_print_of_poisoned {args : List (Option Ty)} (h : (print args).ty = none) :
    (print args).issues ≠ [] := by
  unfold print at *
  split at h
  · exact Ruling.issues_refuse _
  · exact Ruling.issues_acceptIf_of_poisoned h
  · cases h

namespace Expr

variable {Γ : Context}

/-- A call without a type was refused, or it is a source of poison.  What its arguments are does not
matter: the type of a call is that of the result of the function. -/
theorem ruling_call_of_poisoned {n : Note} {f : String} {args : List Expr}
    (h : ((call n f args).ruling Γ).ty = none) :
    ((call n f args).ruling Γ).issues ≠ [] ∨ Poisons Γ (call n f args) := by
  rw [ruling, Rule.call] at h ⊢
  by_cases hf : f = printName
  · rw [if_pos hf] at h ⊢
    exact .inl (Rule.issues_print_of_poisoned h)
  · rw [if_neg hf] at h ⊢
    cases hs : Γ.registry.get? f with
    | none => exact .inl (Ruling.issues_refuse _)
    | some s =>
      rw [hs] at h
      exact .inr (.call hf hs h)

/-- **Why a node has no type**: an issue of its own, a name in it, or a part without a type. -/
theorem ruling_of_poisoned {e : Expr} (h : (e.ruling Γ).ty = none) :
    (e.ruling Γ).issues ≠ [] ∨ e.Poisons Γ ∨ ∃ f ∈ e.visited Γ, (f.check Γ).ty = none := by
  cases e with
  | int | float | string | bool | absent => cases h
  | var n x =>
    cases hx : Γ.scopes.lookup x with
    | none =>
      rw [ruling, hx]
      exact .inl (Ruling.issues_refuse _)
    | some b =>
      rw [ruling, hx] at h
      exact .inr (.inl (.var (hx.trans (congrArg some (Binding.eq_rejected_of_ty? h)))))
  | assign n x e =>
    cases hx : Γ.scopes.lookup x with
    | none =>
      rw [ruling, hx]
      exact .inl (Ruling.issues_refuse _)
    | some b =>
      cases b with
      | rejected => exact .inr (.inl (.target hx))
      | typed t =>
        rw [ruling, hx] at h ⊢
        cases ht : (e.check Γ).ty with
        | none =>
          -- poison stops here: whatever the value is, the assignment has the type of its target
          rw [ht] at h
          cases h
        | some s =>
          rw [ht] at h
          exact .inl (Ruling.issues_acceptIf_of_poisoned h)
  | binary n e op f =>
    cases hs : (e.check Γ).ty with
    | none => exact .inr (.inr ⟨e, List.mem_cons_self, hs⟩)
    | some s =>
      cases ht : (f.check Γ).ty with
      | none => exact .inr (.inr ⟨f, List.mem_pair.2 (.inr rfl), ht⟩)
      | some t =>
        obtain ⟨ok, u, i, heq⟩ := Rule.binary_eq_acceptIf op s t
        rw [ruling, hs, ht] at h ⊢
        simp only [heq] at h ⊢
        exact .inl (Ruling.issues_acceptIf_of_poisoned h)
  | unary n op e =>
    cases hs : (e.check Γ).ty with
    | none => exact .inr (.inr ⟨e, List.mem_cons_self, hs⟩)
    | some s =>
      obtain ⟨ok, u, i, heq⟩ := Rule.unary_eq_acceptIf op s
      rw [ruling, hs] at h ⊢
      simp only [heq] at h ⊢
      exact .inl (Ruling.issues_acceptIf_of_poisoned h)
  | call n f args => exact (ruling_call_of_poisoned h).imp_right .inl
  | actual n e => exact .inr (.inr ⟨e, List.mem_cons_self, h⟩)

/-- An expression without a type is reported about, or the check comes to a source of poison in
it. -/
theorem diagnostics_of_poisoned (e : Expr) : (e.check Γ).ty = none →
    (e.check Γ).diagnostics ≠ [] ∨ ∃ path m, Visits Γ e path m ∧ m.Poisons Γ := by
  induction e using induct_visited Γ with
  | node e ih =>
    intro h
    rw [diagnostics_check]
    rcases ruling_of_poisoned (ty_check Γ e ▸ h) with hown | hname | ⟨f, hf, hpart⟩
    · refine .inl fun hnil ↦ hown ?_
      exact List.map_eq_nil_iff.1 (List.append_eq_nil_iff.1 hnil).2
    · exact .inr ⟨[], e, .here, hname⟩
    -- what a part reports stands among the diagnostics of the whole
    · rcases ih f hf hpart with hne | ⟨path, m, hvisits, hm⟩
      · refine .inl fun hnil ↦ hne ?_
        exact List.flatMap_eq_nil_iff.1 (List.append_eq_nil_iff.1 hnil).1 f hf
      · exact .inr ⟨f :: path, m, .part hf hvisits, hm⟩

/-- A node that is visited is one of the nodes. -/
theorem Visits.mem_nodes_of_path {e m : Expr} {path : List Expr} (h : Visits Γ e path m) :
    m ∈ e.nodes := by
  induction h with
  | here => exact mem_nodes_self _
  | part hf _ ih => exact nodes_subset_of_mem_parts (visited_subset_parts _ hf) ih

end Expr

/-! ## Where the sources of poison are reported

A name at an expression stands for a global, a parameter of the function or a local variable of a
block around, and for each of the three there is a loop that reports about the annotation.  Only for
globals this is not plain, since the loop over these skips the names that are taken.  But a name
stands for the first global, and that one is not skipped. -/

/-- The names that are known at an expression of a statement are those that are known outside, and
those of local variables inside. -/
theorem Stmt.scopes_of_mem_exprs :
    (∀ (s : Stmt) (Γ : Env), ∀ o ∈ s.exprs Γ, ∀ vs ∈ o.1.scopes,
      vs ∈ Γ.scopes ∨ vs ⊆ s.varDecls) ∧
    ∀ (b : Block) (Γ : Env), ∀ o ∈ b.exprs Γ, ∀ vs ∈ o.1.scopes,
      vs ∈ Γ.scopes ∨ vs ⊆ b.varDecls := by
  refine Stmt.induct ?block ?cond ?whileLoop ?forLoop ?ret ?jump ?expr ?body
  case block => exact fun b ih Γ o ho vs hvs ↦ ih Γ o ho vs hvs
  case cond =>
    intro p c a b iha ihb Γ o ho vs hvs
    rw [exprs, List.mem_cons, List.mem_append] at ho
    rw [varDecls]
    rcases ho with rfl | ho | ho
    · exact .inl hvs
    · exact (iha Γ o ho vs hvs).imp_right fun h ↦ List.subset_append_of_subset_left _ h
    · exact (ihb Γ o ho vs hvs).imp_right fun h ↦ List.subset_append_of_subset_right _ h
  case whileLoop =>
    intro p c b ih Γ o ho vs hvs
    rw [exprs, List.mem_cons] at ho
    rcases ho with rfl | ho
    · exact .inl hvs
    · exact ih Γ o ho vs hvs
  case forLoop =>
    intro p i c s b ih Γ o ho vs hvs
    rw [exprs, List.mem_cons, List.mem_cons, List.mem_cons] at ho
    rcases ho with rfl | rfl | rfl | ho
    · exact .inl hvs
    · exact .inl hvs
    · exact .inl hvs
    · exact ih Γ o ho vs hvs
  case ret =>
    intro p e Γ o ho vs hvs
    cases List.mem_singleton.1 ho
    exact .inl hvs
  case jump => exact fun p j Γ o ho ↦ absurd ho List.not_mem_nil
  case expr =>
    intro e Γ o ho vs hvs
    cases List.mem_singleton.1 ho
    exact .inl hvs
  case body =>
    intro p vars ss ih Γ o ho vs hvs
    rw [Block.exprs, exprsAll_eq_flatMap, List.mem_flatMap] at ho
    obtain ⟨s, hs, ho⟩ := ho
    rw [Block.varDecls, varDeclsAll_eq_flatMap]
    rcases ih s hs _ o ho vs hvs with h | h
    -- outside of the statement there are the variables of this block, and what is outside of it
    · rcases List.mem_cons.1 h with rfl | h
      · exact .inr (List.subset_append_left _ _)
      · exact .inl h
    · exact .inr fun v hv ↦ List.mem_append_right _ (List.mem_flatMap.2 ⟨s, hs, h hv⟩)

/-- What is interleaved is a part of the whole. -/
theorem Interleaves.infix_of_mem {es : List Event} {logs : List (List Event)}
    (h : Interleaves es logs) : ∀ log ∈ logs, log <:+: es := by
  induction h with
  | last _ => exact List.forall_mem_nil _
  | @next es log rest logs _ _ ih =>
    refine List.forall_mem_cons.2 ⟨⟨es, rest, List.append_assoc _ _ _⟩, fun l hl ↦ ?_⟩
    exact (ih l hl).trans ((List.suffix_append log rest).trans (List.suffix_append es _)).isInfix

namespace Program

variable {p : Program} {f : FnDecl} (hf : f ∈ p.installed p.registry) (entry : String)

/-- A variable with an annotation that was refused is reported. -/
theorem diagnostics_of_refused {v : VarDecl} {void : Issue} (hv : ∀ t, ¬ v.HasType t)
    (hmem : (v.position, v.annotationDiagnostics void) ∈ p.annotationReports) :
    p.diagnostics entry ≠ [] := by
  intro hnil
  have habout := p.about_annotating entry
  rw [hnil] at habout
  obtain ⟨t, ht⟩ := VarDecl.annotationDiagnostics_eq_nil_iff.1
    (List.flatMap_eq_nil_iff.1 habout.symm _ hmem)
  exact hv t ht

include hf

/-- A function without a type for its result is reported. -/
theorem diagnostics_of_result (hresult : Ty.ofName? f.returnType = none) :
    p.diagnostics entry ≠ [] := by
  intro hnil
  rw [diagnostics_eq, diagnostics_functions] at hnil
  simp only [List.append_eq_nil_iff, List.flatMap_eq_nil_iff] at hnil
  obtain ⟨-, t, ht⟩ := FnDecl.annotations_of_diagnostics (hnil.2.2.2 f hf)
  rw [Ty.ofName?_eq_some_iff.2 ht] at hresult
  cases hresult

variable {o : Env × Expr} (ho : o ∈ f.body.exprs (p.env.enter f.params))

include ho

/-- The declaration that a name stands for at an expression is one that is reported about. -/
theorem mem_annotationReports_of_varDecl? {x : String} {v : VarDecl}
    (hv : o.1.varDecl? x = some v) :
    ∃ void, (v.position, v.annotationDiagnostics void) ∈ p.annotationReports := by
  obtain ⟨vs, hvs, hfind⟩ := List.exists_of_findSome?_eq_some hv
  have hmem := List.mem_of_find?_eq_some hfind
  rcases Stmt.scopes_of_mem_exprs.2 f.body _ o ho vs hvs with h | h
  -- a second global variable of a name is not looked at, but no name stands for it either
  · rcases List.mem_pair.1 h with rfl | rfl
    · exact ⟨_, mem_annotationReports_of_param hf hmem⟩
    · exact ⟨_, mem_annotationReports_of_global (VarDecl.mem_firsts_of_find? hfind)⟩
  · exact ⟨_, mem_annotationReports_of_local hf (h hmem)⟩

/-- A name that stands for a rejected variable was reported where it is declared. -/
theorem diagnostics_of_rejected {x : String}
    (hx : (o.1.lexical p.registry).scopes.lookup x = some .rejected) :
    p.diagnostics entry ≠ [] := by
  rw [Env.lookup_lexical] at hx
  obtain ⟨v, hv, hbinding⟩ := Option.map_eq_some_iff.1 hx
  obtain ⟨void, hmem⟩ := mem_annotationReports_of_varDecl? hf ho hv
  refine diagnostics_of_refused entry (fun t ht ↦ ?_) hmem
  rw [VarDecl.binding, VarDecl.hasType_iff.1 ht] at hbinding
  cases hbinding

/-- **What is a source of poison was reported where it was declared.** -/
theorem diagnostics_of_poisons {m : Expr} (hm : m.Poisons (o.1.lexical p.registry)) :
    p.diagnostics entry ≠ [] := by
  cases hm with
  | var hx => exact diagnostics_of_rejected hf entry ho hx
  | target hx => exact diagnostics_of_rejected hf entry ho hx
  | call hname hs hresult =>
    obtain ⟨i, g, hi, hget, rfl, hprint, rfl⟩ := exists_first_of_get?_registry hs
    exact diagnostics_of_result (mem_installed_iff.2 ⟨i, hget, hprint, hi⟩) entry hresult

/-- An expression without a type halts the program. -/
theorem diagnostics_of_visits {path : List Expr} {m : Expr}
    (hm : Expr.Visits (o.1.lexical p.registry) o.2 path m)
    (hty : (m.check (o.1.lexical p.registry)).ty = none) : p.diagnostics entry ≠ [] := by
  rcases m.diagnostics_of_poisoned hty with hne | ⟨path', k, -, hk⟩
  · intro hnil
    have hlog : (Env.lexicalCheck p.registry o).log <:+: p.events entry :=
      (p.interleaves_events entry).infix_of_mem _ (List.mem_flatMap.2 ⟨f, hf,
        List.mem_map.2 ⟨o, ho, rfl⟩⟩)
    have hinfix := (hm.log_infix.trans hlog).filterMap Event.diagnostic?
    exact hne (List.eq_nil_of_infix_nil (hnil ▸ hinfix))
  · exact diagnostics_of_poisons hf entry ho hk

end Program

/-! ## The whole check

Both halves together.  The expressions that a check comes to are told by their logs in the log of
the check, so that the theorem does not depend on how the model lists them. -/

namespace Check

/-- **Poison is never silent.**  The check of an expression in any state gives a type, or reports
something, or comes to a name in the expression that stands for a variable whose annotation was
refused or for a function whose annotation names no type for the result.  A check of a program
that comes to an expression without a type has something to report in the end; the expressions
that it comes to are those whose logs stand in its log. -/
theorem poison_never_silent :
    (∀ (c : Checker) (e : Expr), ∃ e' t d ds, (expr e).run c = .ok (e', t) d ∧
      d.diagnostics = c.diagnostics ++ ds ∧
      (t = none → ds ≠ [] ∨
        ∃ path, ∃ m ∈ e.nodes, Expr.Visits c.context e path m ∧ m.Poisons c.context)) ∧
    ∀ (p : Program) (entry : String), ∃ q c, p.check entry = .ok (q, c) ∧
      Interleaves c.log.toList ((p.installed c.registry).flatMap fun f ↦
        (f.body.exprs (p.env.enter f.params)).map fun o ↦ (Env.lexicalCheck c.registry o).log) ∧
      ∀ f ∈ p.installed c.registry, ∀ o ∈ f.body.exprs (p.env.enter f.params), ∀ path m,
        Expr.Visits (o.1.lexical c.registry) o.2 path m →
          (m.check (o.1.lexical c.registry)).log <:+: (Env.lexicalCheck c.registry o).log ∧
          ((m.check (o.1.lexical c.registry)).ty = none → c.diagnostics ≠ []) := by
  refine ⟨fun c e ↦ ?_, fun p entry ↦ ?_⟩
  · refine ⟨_, _, _, _, expr_apply e c, c.diagnostics_move _ _, fun h ↦ ?_⟩
    refine (e.diagnostics_of_poisoned h).imp_right fun ⟨path, m, hvisits, hm⟩ ↦ ?_
    exact ⟨path, m, hvisits.mem_nodes_of_path, hvisits, hm⟩
  · have hlog : (p.checked entry).log.toList = p.events entry := by
      simp [Program.checked, Checker.move, Checker.start]
    refine ⟨p.annotate, p.checked entry, p.check_eq entry, ?_, fun f hf o ho path m hm ↦
      ⟨hm.log_infix, fun hty ↦ ?_⟩⟩
    · rw [hlog]
      exact p.interleaves_events entry
    · rw [p.diagnostics_checked]
      exact Program.diagnostics_of_visits hf entry ho hm hty

/-- In `!(r + 1)` nothing is reported and the poison comes from `r`.  The check of a program with
such a variable reports something. -/
theorem poison_never_silent_samples :
    (∃ e d, (expr negatedSum).run refusing = .ok (e, none) d ∧
      d.diagnostics = refusing.diagnostics ∧ ∃ m ∈ negatedSum.nodes, m.Poisons refusing.context) ∧
    ∃ q c, Program.refusedFirst.check "main" = .ok (q, c) ∧ c.diagnostics ≠ [] := by
  obtain ⟨hexpr, hprogram⟩ := poison_never_silent
  constructor
  · obtain ⟨e, t, d, ds, hrun, hds, hpoison⟩ := hexpr refusing negatedSum
    cases (expr_apply negatedSum refusing).symm.trans hrun
    have hnil : ds = [] := List.self_eq_append_right.1 hds
    subst hnil
    obtain ⟨path, m, hm, -, hpoisons⟩ := (hpoison rfl).resolve_left fun h ↦ h rfl
    exact ⟨_, _, hrun, hds, m, hm, hpoisons⟩
  · obtain ⟨q, c, hcheck, -, hpoison⟩ := hprogram Program.refusedFirst "main"
    cases (Program.check_eq Program.refusedFirst "main").symm.trans hcheck
    have hx := hpoison _ List.mem_cons_self _ List.mem_cons_self [] _ .here
    exact ⟨_, _, hcheck, hx.2 rfl⟩

end Check

end Typewright
