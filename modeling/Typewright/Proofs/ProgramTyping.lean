import Typewright.Proofs.StmtTyping

/-!
# Checking programs against the type system

The main result is `Program.verdict_eq_ok_iff_wellTyped`: a program is accepted exactly when it
obeys the rules of the type system, and then the check has written on every expression the one type
that the rules give it.

Whether a call is well typed depends on the annotations of all functions, and a check of a function
does not look at those of another.  So the program as a whole has to be free of diagnostics before
anything can be said about the body of one function: `Program.env_wellFormed` comes first, from the
annotations alone, and the bodies after it.  This is the one place where soundness is not an
induction over the parts: a single function can be silent and still not be well typed, because it
calls one whose annotations are bad.

The diagnostics of a program fall into four parts, one for each pass (`Program.diagnostics_eq`).
The first three are decided by names and annotations.  The last one is a matter of the installed
functions; where the first part is empty these are all functions, and then the numbers by which the
check tells installed functions from others play no role (`Program.diagnostics_eventsFrom`).
-/

set_option autoImplicit false

namespace Typewright

open List (Forall₂)

/-! ## Functions

A function has an annotation for its result, parameters and a body.  Its diagnostics are those of
the three in this order. -/

/-- The annotation of a result has no issue if it names a type. -/
theorem Rule.resultIssue?_eq_none_iff {function typeName : String} :
    Rule.resultIssue? function typeName = none ↔ ∃ t : Ty, typeName = t.name := by
  by_cases hp : typeName = printName
  · have hno : ¬ ∃ t : Ty, printName = t.name := by
      rintro ⟨t, ht⟩
      cases t <;> exact absurd ht (by decide)
    rw [hp, resultIssue?, if_pos rfl]
    simp [hno]
  · simp only [← Ty.ofName?_eq_some_iff]
    cases ht : Ty.ofName? typeName <;> simp [resultIssue?, hp, ht]

namespace FnDecl

theorem diagnostics_events (σ : Site) (f : FnDecl) : Event.diagnostics (f.events σ)
    = (Rule.resultIssue? f.name f.returnType).toList.map (.located · f.position)
      ++ (Event.diagnostics (Scope.paramEvents f.name [] f.params)
        ++ Event.diagnostics (f.body.events ((σ.inFunction f.name).push f.paramScope)
          (Ty.ofName? f.returnType))) := by
  simp [events, innerEvents, Event.diagnostics_cons, Event.diagnostic?]

/-- The diagnostics of a function from those of its three parts. -/
theorem diagnostics_events_of {σ : Site} {f : FnDecl} {result : Option Issue}
    {params body ds : List Diagnostic}
    (hresult : Rule.resultIssue? f.name f.returnType = result)
    (hparams : Event.diagnostics (Scope.paramEvents f.name [] f.params) = params)
    (hbody : Event.diagnostics (f.body.events ((σ.inFunction f.name).push f.paramScope)
      (Ty.ofName? f.returnType)) = body)
    (hds : result.toList.map (.located · f.position) ++ (params ++ body) = ds) :
    Event.diagnostics (f.events σ) = ds := by
  rw [diagnostics_events, hresult, hparams, hbody, hds]

/-- The site of the body of a function, where its parameters may have lost their types. -/
theorem reflects_body {lax : Prop} {σ : Site} {Γ : Env} (hσ : σ.context.Reflects lax Γ)
    {params : List VarDecl} {f : FnDecl} (hf : Forall₂ (VarDecl.Blurs lax) params f.params) :
    ((σ.inFunction f.name).push f.paramScope).Reflects lax (Γ.enter params) false :=
  ⟨hσ.push hf, (nomatch ·)⟩

/-- A function that is well typed is not reported about. -/
theorem diagnostics_of_wellTyped {lax : Prop} {σ : Site} {Γ : Env} (hσ : σ.context.Reflects lax Γ)
    {f : FnDecl} (hf : f.WellTyped Γ) : Event.diagnostics (f.events σ) = [] := by
  obtain ⟨ret, hret, hbody⟩ := hf.body
  have hsite := reflects_body hσ (VarDecl.forall₂_blurs_refl lax f.params)
  have hnear := (Blurs.refl lax f).result ret hret
  exact diagnostics_events_of (Rule.resultIssue?_eq_none_iff.2 ⟨ret, hret⟩)
    ((Scope.declares_params f.name).diagnostics_eq_nil_iff.2 hf.params)
    ((Stmt.diagnostics_of_wellFormed hnear).2 f.body hbody hsite) rfl

/-- The annotations of a function that is not reported about. -/
theorem annotations_of_diagnostics {σ : Site} {f : FnDecl}
    (h : Event.diagnostics (f.events σ) = []) :
    VarDecl.WellFormed f.params ∧ ∃ ret : Ty, f.returnType = ret.name := by
  rw [diagnostics_events, List.append_eq_nil_iff, List.append_eq_nil_iff, List.map_eq_nil_iff,
    Option.toList_eq_nil_iff] at h
  exact ⟨(Scope.declares_params f.name).diagnostics_eq_nil_iff.1 h.2.1,
    Rule.resultIssue?_eq_none_iff.1 h.1⟩

/-- A function that is not reported about is well typed, if the annotations around it are. -/
theorem wellTyped_of_diagnostics {σ : Site} {Γ : Env} (hσ : σ.context.Exact Γ)
    (hΓ : Γ.WellFormed) {f : FnDecl} (h : Event.diagnostics (f.events σ) = []) :
    f.WellTyped Γ := by
  obtain ⟨hparams, ret, hret⟩ := annotations_of_diagnostics h
  refine ⟨hparams, ret, hret, ?_⟩
  have hbody : ((σ.inFunction f.name).push f.paramScope).Exact (Γ.enter f.params) false :=
    ⟨hσ.push f.params, hΓ.enter hparams.typed, ⟨(nomatch ·), fun h ↦ absurd rfl h⟩⟩
  rw [diagnostics_events, hret, Ty.ofName?_name, List.append_eq_nil_iff,
    List.append_eq_nil_iff] at h
  exact Stmt.wellFormed_of_diagnostics.2 f.body hbody h.2.2

/-- Among functions with different names, the one with a given name is found. -/
theorem find?_eq_some_iff_of_nodup {fs : List FnDecl} (h : (fs.map FnDecl.name).Nodup) {x : String}
    {d : FnDecl} : fs.find? (·.name = x) = some d ↔ d ∈ fs ∧ d.name = x := by
  constructor
  · intro hd
    exact ⟨List.mem_of_find?_eq_some hd, by simpa using List.find?_some hd⟩
  · rintro ⟨hd, rfl⟩
    induction fs with
    | nil => exact absurd hd List.not_mem_nil
    | cons f fs ih =>
      rw [List.map_cons, List.nodup_cons] at h
      rcases List.mem_cons.1 hd with rfl | hd
      · simp
      · have hne : f.name ≠ d.name := fun heq ↦ h.1 (heq ▸ List.mem_map_of_mem hd)
        rw [List.find?_cons_of_neg (by simpa using hne), ih h.2 hd]

end FnDecl

/-! ## Programs

The passes in turn.  For each there is an equivalence between its silence and one of the conditions
of `Program.WellTyped`, and `Program.diagnostics_eq_nil_iff` puts them together. -/

namespace Program

/-- The diagnostics of a program, pass by pass. -/
theorem diagnostics_eq (p : Program) (entry : String) : p.diagnostics entry
    = Event.diagnostics (Registry.empty.installEvents 0 p.decls)
      ++ (Event.diagnostics (p.registry.entryEvents entry)
        ++ (Event.diagnostics (Scope.globalEvents [] p.globals)
          ++ Event.diagnostics (Decl.eventsFrom p.site 0 p.decls))) := by
  simp [diagnostics, events, innerEvents, Event.diagnostics_cons, Event.diagnostic?]

/-- Functions are installed without a report if their names are different and not reserved. -/
theorem diagnostics_installEvents_eq_nil_iff (p : Program) :
    Event.diagnostics (Registry.empty.installEvents 0 p.decls) = [] ↔
      (p.functions.map FnDecl.name).Nodup ∧ ∀ f ∈ p.functions, f.name ≠ printName := by
  rw [Registry.diagnostics_installEvents_eq_nil_iff]
  simp only [Registry.issue?_eq_none_iff, Registry.get?_empty, and_true]
  rfl

/-- The diagnostics of the functions of a program whose functions are all installed. -/
theorem diagnostics_eventsFrom {p : Program}
    (h : Event.diagnostics (Registry.empty.installEvents 0 p.decls) = []) :
    Event.diagnostics (Decl.eventsFrom p.site 0 p.decls)
      = p.functions.flatMap fun f ↦ Event.diagnostics (f.events p.site) :=
  Decl.diagnostics_eventsFrom p.site p.decls (Registry.installed_declareFrom p.decls h)

/-- The entry function is not reported about if there is one with the right annotations. -/
theorem diagnostics_entryEvents_eq_nil_iff {p : Program} {entry : String}
    (hnodup : (p.functions.map FnDecl.name).Nodup)
    (hreserved : ∀ f ∈ p.functions, f.name ≠ printName) :
    Event.diagnostics (p.registry.entryEvents entry) = [] ↔
      ∃ f ∈ p.functions, f.name = entry ∧ f.params = [] ∧ f.returnType = Ty.void.name := by
  rw [Registry.diagnostics_entryEvents_eq_nil_iff]
  -- the function for output can be asked for as the entry, and is never found
  by_cases hentry : entry = printName
  · have hget : p.registry.get? printName = none :=
      Registry.get?_declareFrom_printName p.decls .empty 0 rfl
    rw [hentry, hget]
    refine ⟨(nomatch ·), ?_⟩
    rintro ⟨f, hf, hname, -⟩
    exact absurd hname (hreserved f hf)
  · have hget := p.exact_site.fn hentry
    have hsite : p.site.context.registry = p.registry := rfl
    rw [hsite] at hget
    rw [hget, Option.map_eq_some_iff]
    simp only [Env.fnDecl?, env, FnDecl.find?_eq_some_iff_of_nodup hnodup, FnDecl.profile,
      Prod.mk.injEq, List.map_eq_nil_iff, and_assoc]

/-- Where no annotation is reported about, the names of the program have types. -/
theorem env_wellFormed {p : Program} (hglobals : VarDecl.WellFormed p.globals)
    (hfunctions : ∀ f ∈ p.functions,
      VarDecl.WellFormed f.params ∧ ∃ ret : Ty, f.returnType = ret.name) : p.env.WellFormed := by
  have houter : Env.WellFormed ⟨[], p.functions⟩ := by
    refine ⟨fun hx ↦ by simp [Env.varDecl?] at hx, ?_⟩
    intro f d hd
    obtain ⟨hparams, hret⟩ := hfunctions d (List.mem_of_find?_eq_some hd)
    exact ⟨hparams.typed, hret⟩
  exact houter.enter hglobals.typed

/-- A program with different names and an entry function is reported about by its declarations
only. -/
theorem diagnostics_eq_of_entry {p : Program} {entry : String}
    (hnodup : (p.functions.map FnDecl.name).Nodup)
    (hreserved : ∀ f ∈ p.functions, f.name ≠ printName)
    (hentry : ∃ f ∈ p.functions, f.name = entry ∧ f.params = [] ∧ f.returnType = Ty.void.name) :
    p.diagnostics entry = Event.diagnostics (Scope.globalEvents [] p.globals)
      ++ p.functions.flatMap fun f ↦ Event.diagnostics (f.events p.site) := by
  have hinstall := p.diagnostics_installEvents_eq_nil_iff.2 ⟨hnodup, hreserved⟩
  rw [diagnostics_eq, hinstall, (diagnostics_entryEvents_eq_nil_iff hnodup hreserved).2 hentry,
    diagnostics_eventsFrom hinstall]
  rfl

/-- **A program is not reported about exactly when it is well typed.** -/
theorem diagnostics_eq_nil_iff (p : Program) (entry : String) :
    p.diagnostics entry = [] ↔ p.WellTyped entry := by
  constructor
  · intro h
    rw [diagnostics_eq, List.append_eq_nil_iff, List.append_eq_nil_iff,
      List.append_eq_nil_iff] at h
    obtain ⟨hinstall, hentry, hglobals, hfunctions⟩ := h
    rw [diagnostics_eventsFrom hinstall, List.flatMap_eq_nil_iff] at hfunctions
    obtain ⟨hnodup, hreserved⟩ := p.diagnostics_installEvents_eq_nil_iff.1 hinstall
    have hglobals := Scope.declares_globals.diagnostics_eq_nil_iff.1 hglobals
    -- the annotations of all functions, before the body of any of them
    have henv := env_wellFormed hglobals fun f hf ↦
      FnDecl.annotations_of_diagnostics (hfunctions f hf)
    exact ⟨hnodup, hreserved, (diagnostics_entryEvents_eq_nil_iff hnodup hreserved).1 hentry,
      hglobals, fun f hf ↦ FnDecl.wellTyped_of_diagnostics p.exact_site henv (hfunctions f hf)⟩
  · intro h
    have hfunctions : ∀ f ∈ p.functions, Event.diagnostics (f.events p.site) = [] := fun f hf ↦
      FnDecl.diagnostics_of_wellTyped (p.exact_site.reflects False) (h.functions f hf)
    rw [diagnostics_eq_of_entry h.distinct h.reserved h.entry,
      Scope.declares_globals.diagnostics_eq_nil_iff.2 h.globals,
      List.flatMap_eq_nil_iff.2 hfunctions, List.append_nil]

end Program

/-! ## The types that are written on programs

A check gives a program back.  It differs from the one it was given by types only, and if it is well
typed every expression in it carries its type. -/

/-- The check of a function changes nothing but the types on its expressions. -/
theorem FnDecl.untyped_annotate (Δ : Context) (f : FnDecl) :
    (f.annotate Δ).relabel .untyped = f.relabel .untyped := by
  simp [relabel, annotate, Stmt.untyped_annotate.2]

/-- The expressions of a well-typed function carry their types after the check. -/
theorem FnDecl.carryTypes_annotate {Δ : Context} {Γ : Env} (hΔ : Δ.Exact Γ) {f : FnDecl}
    (hf : f.WellTyped Γ) :
    CarryTypes ((f.annotate Δ).body.exprs (Γ.enter (f.annotate Δ).params)) := by
  obtain ⟨ret, -, hbody⟩ := hf.body
  exact Stmt.carryTypes_annotate.2 f.body hbody (hΔ.push f.params)

namespace Decl

/-- The check of declarations changes nothing but types.  A function that is not installed is not
changed at all. -/
theorem untyped_annotateFrom (Δ : Context) (ds : List Decl) : ∀ i : Nat,
    (annotateFrom Δ i ds).map (relabel .untyped) = ds.map (relabel .untyped) := by
  induction ds with
  | nil => intro i; rfl
  | cons d ds ih =>
    intro i
    rw [annotateFrom, List.map_cons, ih, List.map_cons]
    cases d with
    | global v => rfl
    | function f =>
      by_cases hf : Δ.registry.isInstalled f.name i <;>
        simp [annotate, relabel, hf, FnDecl.untyped_annotate]

/-- Where all functions are installed, types are written on all of them. -/
theorem functions_annotateFrom (Δ : Context) (ds : List Decl) : ∀ {i : Nat},
    Δ.registry.Installed i ds → (annotateFrom Δ i ds).filterMap function?
      = (ds.filterMap function?).map (FnDecl.annotate Δ) := by
  induction ds with
  | nil => intro i _; rfl
  | cons d ds ih =>
    intro i h
    cases d with
    | global v =>
      rw [annotateFrom, annotate, List.filterMap_cons_none (function?_global v),
        List.filterMap_cons_none (function?_global v), ih h]
    | function f =>
      rw [annotateFrom, annotate, if_pos h.1, List.filterMap_cons_some (function?_function _),
        List.filterMap_cons_some (function?_function f), ih h.2, List.map_cons]

end Decl

namespace Program

/-- The functions of a well-typed program after the check. -/
theorem functions_annotate {p : Program} {entry : String} (h : p.WellTyped entry) :
    p.annotate.functions = p.functions.map (FnDecl.annotate p.site.context) :=
  Decl.functions_annotateFrom p.site.context p.decls
    (Registry.installed_declareFrom p.decls
      (p.diagnostics_installEvents_eq_nil_iff.2 ⟨h.distinct, h.reserved⟩))

/-- The expressions of a well-typed program carry their types after the check. -/
theorem carryTypes_annotate {p : Program} {entry : String} (h : p.WellTyped entry) :
    ∀ f ∈ p.annotate.functions, CarryTypes (f.body.exprs (p.env.enter f.params)) := by
  intro f hf
  rw [functions_annotate h, List.mem_map] at hf
  obtain ⟨g, hg, rfl⟩ := hf
  exact FnDecl.carryTypes_annotate p.exact_site (h.functions g hg)

theorem verdict_eq_ok_iff (p : Program) (entry : String) :
    p.verdict entry = .ok () ↔ p.diagnostics entry = [] := by
  rw [verdict, check_eq]
  by_cases h : p.diagnostics entry = [] <;> simp [h]

/-- **A program is accepted exactly when it is well typed.**  The check gives the program back with
nothing but types written on it, and if the program is well typed, then every node of every
expression of every function carries the one type that it has where it stands. -/
theorem verdict_eq_ok_iff_wellTyped (p : Program) (entry : String) :
    (p.verdict entry = .ok () ↔ p.WellTyped entry) ∧
    ∃ q c, p.check entry = .ok (q, c) ∧ (c.diagnostics = [] ↔ p.WellTyped entry) ∧
      q.relabel .untyped = p.relabel .untyped ∧
      (p.WellTyped entry →
        ∀ f ∈ q.functions, CarryTypes (f.body.exprs (p.env.enter f.params))) := by
  refine ⟨?_, p.annotate, p.checked entry, p.check_eq entry, ?_, ?_, ?_⟩
  · rw [verdict_eq_ok_iff, diagnostics_eq_nil_iff]
  · rw [diagnostics_checked, diagnostics_eq_nil_iff]
  · rw [relabel, relabel, annotate, Decl.untyped_annotateFrom]
  · exact carryTypes_annotate

end Program

end Typewright
