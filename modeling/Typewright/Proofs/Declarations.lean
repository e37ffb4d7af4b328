import Typewright.Proofs.ExprTyping

/-!
# What declarations bind, and what is reported about them

A check goes through declarations in order and keeps a table of the names that are taken.  This file
says what comes of that, for scopes and for the registry.

* A name stands for the first declaration of it (`Scope.lookup_declareAll`,
  `Registry.map_get?_declareFrom`), so the context of a check is exact (`Context.Exact.push`,
  `Program.exact_site`).
* Nothing is reported about well-formed declarations and about no others
  (`Scope.Declares.diagnostics_eq_nil_iff`, `Registry.diagnostics_installEvents_eq_nil_iff`,
  `Registry.diagnostics_entryEvents_eq_nil_iff`).

Locals, parameters and globals are declared by three loops with issues of their own.
`Scope.Declares` is what the loops have in common, and it is enough for both of the facts that the
type system needs: nothing is reported about well-formed declarations and about no others, and
declarations with different names are reported about one by one, by their annotations.  How a loop
reports a name that is taken is not a part of it, only that it does, since the three loops differ in
that.

As for expressions, contexts may have lost types: `VarDecl.Blurs` and `FnDecl.Blurs` say that one
declaration is another whose annotations are worse.  A program with blurred declarations is checked
in contexts that reflect those of the program before (`Program.reflects_site`).
-/

set_option autoImplicit false

namespace Typewright

open List (Forall₂)

/-! ## Scopes

A scope is a list of bindings with the last one in front, and a name is only bound if it is free.
So what is found under a name is what was bound first, and a lookup can be read off the list of
declarations. -/

/-- A name is looked for in the innermost scope first. -/
theorem Scopes.lookup_push (s : Scopes) (f : Scope) (x : String) :
    (s.push f).lookup x = (f.lookup x).or (s.lookup x) := by
  cases h : f.lookup x <;> simp [lookup, push, h]

namespace Scope

/-- A declaration binds its name, unless the name is bound already. -/
theorem lookup_declare (f : Scope) (v : VarDecl) (x : String) :
    (f.declare v).lookup x = (f.lookup x).or (if v.name = x then some v.binding else none) := by
  rw [declare]
  by_cases hx : v.name = x
  · subst hx
    cases hv : f.lookup v.name <;> simp [hv, VarDecl.binding]
  · have hne : (x == v.name) = false := beq_false_of_ne fun h ↦ hx h.symm
    cases hv : f.lookup v.name <;> simp [hx, List.lookup_cons, hne]

/-- A name stands for the first declaration of it. -/
theorem lookup_declareAll (vs : List VarDecl) (x : String) : ∀ f : Scope,
    (f.declareAll vs).lookup x
      = (f.lookup x).or ((vs.find? (·.name = x)).map VarDecl.binding) := by
  induction vs with
  | nil => intro f; simp [declareAll]
  | cons v vs ih =>
    intro f
    have hstep : f.declareAll (v :: vs) = (f.declare v).declareAll vs := rfl
    rw [hstep, ih, lookup_declare, Option.or_assoc]
    by_cases hx : v.name = x <;> simp [hx]

end Scope

/-! ## Annotations

An annotation is looked at on its own, apart from the name that it stands at.  It has no issue
exactly if it names the type of a value, whatever wording the issue of `Void` has. -/

/-- The diagnostics of an issue at a place. -/
@[simp] theorem diagnostics_reports (i : Option Issue) (p : Position) :
    Event.diagnostics (reports i p) = i.toList.map (.located · p) := by
  cases i <;> rfl

/-- What is reported about the annotation of a variable, where `void` is the issue of `Void`. -/
def VarDecl.annotationDiagnostics (void : Issue) (v : VarDecl) : List Diagnostic :=
  (Rule.variableIssue? v.typeName void).toList.map (.located · v.position)

/-- An annotation has no issue if it names the type of a value. -/
theorem Rule.variableIssue?_eq_none_iff {typeName : String} {void : Issue} :
    Rule.variableIssue? typeName void = none ↔ ∃ t, Ty.ofVariable? typeName = some t := by
  rw [variableIssue?, Ty.ofVariable?]
  cases Ty.ofName? typeName with
  | none => simp
  | some t => cases t <;> simp

/-- Nothing is reported about an annotation exactly if the variable has a type. -/
theorem VarDecl.annotationDiagnostics_eq_nil_iff {void : Issue} {v : VarDecl} :
    v.annotationDiagnostics void = [] ↔ ∃ t, v.HasType t := by
  rw [annotationDiagnostics, List.map_eq_nil_iff, Option.toList_eq_nil_iff,
    Rule.variableIssue?_eq_none_iff]
  simp only [VarDecl.hasType_iff]

/-! ## Declarations in one scope

The invariant of a loop over declarations is which names are free: those that the scope does not
bind.  A free name leaves its annotation to report and a taken one is reported about in any case, so
a list of declarations is silent exactly if its names are free and different and its annotations are
good. -/

/-- The events are those of a loop that declares variables in a scope: a name that is free leaves
only its annotation to report, and one that is taken is reported about in any case. -/
structure Scope.Declares (void : VarDecl → Issue) (events : Scope → List VarDecl → List Event) :
    Prop where
  nil : ∀ f, Event.diagnostics (events f []) = []
  free : ∀ {f : Scope} {v : VarDecl} (vs : List VarDecl), f.lookup v.name = none →
    Event.diagnostics (events f (v :: vs))
      = v.annotationDiagnostics (void v) ++ Event.diagnostics (events (f.declare v) vs)
  taken : ∀ {f : Scope} {v : VarDecl} (vs : List VarDecl), f.lookup v.name ≠ none →
    Event.diagnostics (events f (v :: vs)) ≠ []

namespace Scope

theorem declares_locals : Declares (fun v ↦ .voidVariable v.name) localEvents where
  nil := fun f ↦ rfl
  free := by
    intro f v vs hv
    simp [localEvents, declareEvents, hv, Event.diagnostics_cons, Event.diagnostic?,
      VarDecl.annotationDiagnostics]
  taken := by
    intro f v vs hv
    simp [localEvents, declareEvents, Option.isSome_iff_ne_none.2 hv, Event.diagnostics_cons,
      Event.diagnostic?]

theorem declares_params (function : String) :
    Declares (fun v ↦ .voidParameter function v.name) (paramEvents function) where
  nil := fun f ↦ rfl
  free := by
    intro f v vs hv
    simp [paramEvents, declareEvents, hv, VarDecl.annotationDiagnostics]
  taken := by
    intro f v vs hv
    simp [paramEvents, declareEvents, Option.isSome_iff_ne_none.2 hv]

/-- The loop over the globals.  It does not look at the annotation of a name that is taken, and
still it reports something then, which is all that is asked for. -/
theorem declares_globals : Declares (fun v ↦ .voidVariable v.name) globalEvents where
  nil := fun f ↦ rfl
  free := by
    intro f v vs hv
    simp [globalEvents, globalIssue?, hv, Event.diagnostics_cons, Event.diagnostic?,
      VarDecl.annotationDiagnostics]
  taken := by
    intro f v vs hv
    simp [globalEvents, globalIssue?, Option.isSome_iff_ne_none.2 hv, Event.diagnostics_cons,
      Event.diagnostic?]

/-- The names that are free after a declaration. -/
theorem lookup_declare_eq_none_iff {f : Scope} {v : VarDecl} {x : String} :
    (f.declare v).lookup x = none ↔ f.lookup x = none ∧ v.name ≠ x := by
  rw [lookup_declare, Option.or_eq_none_iff]
  simp

namespace Declares

variable {void : VarDecl → Issue} {events : Scope → List VarDecl → List Event}

/-- Variables with different names are reported about by their annotations only. -/
theorem diagnostics_of_nodup (h : Declares void events) {vs : List VarDecl} : ∀ {f : Scope},
    (vs.map VarDecl.name).Nodup → (∀ v ∈ vs, f.lookup v.name = none) →
    Event.diagnostics (events f vs) = vs.flatMap fun v ↦ v.annotationDiagnostics (void v) := by
  induction vs with
  | nil =>
    intro f _ _
    exact h.nil f
  | cons v vs ih =>
    intro f hnodup hfree
    rw [List.map_cons, List.nodup_cons] at hnodup
    rw [h.free vs (hfree v List.mem_cons_self), List.flatMap_cons, ih hnodup.2]
    intro w hw
    refine lookup_declare_eq_none_iff.2 ⟨hfree w (List.mem_cons_of_mem v hw), ?_⟩
    intro heq
    exact hnodup.1 (heq ▸ List.mem_map_of_mem hw)

/-- Variables that are not reported about have different names, none of which was taken. -/
theorem nodup_of_diagnostics (h : Declares void events) {vs : List VarDecl} : ∀ {f : Scope},
    Event.diagnostics (events f vs) = [] →
    (vs.map VarDecl.name).Nodup ∧ ∀ v ∈ vs, f.lookup v.name = none := by
  induction vs with
  | nil => intro f _; simp
  | cons v vs ih =>
    intro f hnil
    -- a name that is taken is reported in any case, so this one is free
    have hv : f.lookup v.name = none := by
      by_contra hv
      exact h.taken vs hv hnil
    rw [h.free vs hv, List.append_eq_nil_iff] at hnil
    obtain ⟨hnodup, hfree⟩ := ih hnil.2
    refine ⟨?_, ?_⟩
    · rw [List.map_cons, List.nodup_cons]
      refine ⟨?_, hnodup⟩
      intro hmem
      obtain ⟨w, hw, heq⟩ := List.mem_map.1 hmem
      exact (lookup_declare_eq_none_iff.1 (hfree w hw)).2 heq.symm
    · intro w hw
      rcases List.mem_cons.1 hw with rfl | hw
      · exact hv
      · exact (lookup_declare_eq_none_iff.1 (hfree w hw)).1

/-- **Declarations are not reported about exactly when they are well-formed.** -/
theorem diagnostics_eq_nil_iff (h : Declares void events) {vs : List VarDecl} :
    Event.diagnostics (events [] vs) = [] ↔ VarDecl.WellFormed vs := by
  constructor
  · intro hnil
    have hnodup := (h.nodup_of_diagnostics hnil).1
    rw [h.diagnostics_of_nodup hnodup (fun _ _ ↦ rfl), List.flatMap_eq_nil_iff] at hnil
    exact ⟨hnodup, fun v hv ↦ VarDecl.annotationDiagnostics_eq_nil_iff.1 (hnil v hv)⟩
  · intro hvs
    rw [h.diagnostics_of_nodup hvs.distinct (fun _ _ ↦ rfl), List.flatMap_eq_nil_iff]
    intro v hv
    exact VarDecl.annotationDiagnostics_eq_nil_iff.2 (hvs.typed v hv)

end Declares

end Scope

/-! ## Contexts with one more scope

Entering a block adds a scope to the context and a list of declarations to the environment.  Both an
exact context and one that reflects the declarations stay what they are. -/

/-- A name is looked for in the innermost block first. -/
theorem Env.varDecl?_enter (Γ : Env) (vs : List VarDecl) (x : String) :
    (Γ.enter vs).varDecl? x = (vs.find? (·.name = x)).or (Γ.varDecl? x) := by
  cases h : vs.find? (·.name = x) <;> simp [varDecl?, enter, h]

/-- Declarations with types of values may be entered. -/
theorem Env.WellFormed.enter {Γ : Env} (h : Γ.WellFormed) {vs : List VarDecl}
    (hvs : ∀ v ∈ vs, ∃ t, v.HasType t) : (Γ.enter vs).WellFormed where
  var := by
    intro x v hx
    rw [varDecl?_enter, Option.or_eq_some_iff] at hx
    rcases hx with hx | ⟨-, hx⟩
    · exact hvs v (List.mem_of_find?_eq_some hx)
    · exact h.var hx
  fn := h.fn

/-- The declaration `w` is `v` with another annotation, which may have lost the type of the variable
where `lax` holds. -/
structure VarDecl.Blurs (lax : Prop) (v w : VarDecl) : Prop where
  name : w.name = v.name
  typed : ∀ t, v.HasType t → Near lax t (Ty.ofVariable? w.typeName)

theorem VarDecl.Blurs.refl (lax : Prop) (v : VarDecl) : v.Blurs lax v where
  name := rfl
  typed := by
    intro t ht
    rw [VarDecl.hasType_iff.1 ht]
    exact near_some lax t

theorem VarDecl.forall₂_blurs_refl (lax : Prop) (vs : List VarDecl) :
    Forall₂ (VarDecl.Blurs lax) vs vs :=
  List.forall₂_same.2 fun v _ ↦ .refl lax v

/-- The first declaration of a name among blurred ones. -/
theorem VarDecl.find?_of_blurs {lax : Prop} {vs ws : List VarDecl}
    (h : Forall₂ (VarDecl.Blurs lax) vs ws) (x : String) :
    (vs.find? (·.name = x) = none ∧ ws.find? (·.name = x) = none) ∨
      ∃ v w, vs.find? (·.name = x) = some v ∧ ws.find? (·.name = x) = some w ∧ v.Blurs lax w := by
  induction h with
  | nil => exact .inl ⟨rfl, rfl⟩
  | @cons v w vs ws hvw _ ih =>
    by_cases hx : v.name = x
    · exact .inr ⟨v, w, by simp [hx], by simp [hvw.name, hx], hvw⟩
    · simpa [hvw.name, hx] using ih

namespace Context

/-- The scope of a block makes an exact context one for the inside of the block. -/
theorem Exact.push {Δ : Context} {Γ : Env} (h : Δ.Exact Γ) (vs : List VarDecl) :
    (Δ.push (Scope.declareAll [] vs)).Exact (Γ.enter vs) where
  var := by
    intro x
    rw [Env.varDecl?_enter, Option.map_or, ← h.var]
    simp [Context.push, Scopes.lookup_push, Scope.lookup_declareAll]
  fn := h.fn

/-- A scope that binds nothing changes nothing.  The branches of an `if` stand in one. -/
theorem Exact.push_nil {Δ : Context} {Γ : Env} (h : Δ.Exact Γ) : (Δ.push []).Exact Γ where
  var := h.var
  fn := h.fn

/-- The scope of a block reflects its variables if it declares them, or blurred ones. -/
theorem Reflects.push {lax : Prop} {Δ : Context} {Γ : Env} (h : Δ.Reflects lax Γ)
    {vs ws : List VarDecl} (hws : Forall₂ (VarDecl.Blurs lax) vs ws) :
    (Δ.push (Scope.declareAll [] ws)).Reflects lax (Γ.enter vs) where
  var := by
    intro x v hx
    have hlookup : (Δ.push (Scope.declareAll [] ws)).scopes.lookup x
        = ((ws.find? (·.name = x)).map VarDecl.binding).or (Δ.scopes.lookup x) := by
      simp [Context.push, Scopes.lookup_push, Scope.lookup_declareAll]
    rw [Env.varDecl?_enter] at hx
    rcases VarDecl.find?_of_blurs hws x with ⟨hvs, hws⟩ | ⟨v', w, hvs, hws, hvw⟩
    · rw [hvs, Option.none_or] at hx
      rw [hlookup, hws, Option.map_none, Option.none_or]
      exact h.var hx
    · rw [hvs, Option.some_or, Option.some_inj] at hx
      subst hx
      refine ⟨w.binding, by rw [hlookup, hws, Option.map_some, Option.some_or], ?_⟩
      rw [VarDecl.ty?_binding]
      exact hvw.typed
  fn := h.fn

theorem Reflects.push_nil {lax : Prop} {Δ : Context} {Γ : Env} (h : Δ.Reflects lax Γ) :
    (Δ.push []).Reflects lax Γ where
  var := h.var
  fn := h.fn

end Context

/-! ## Functions

The registry is to functions what a scope is to variables, with two differences: the name of the
function for output is never free, and every signature carries the number of its declaration, by
which a function is recognised when it is its turn to be checked. -/

@[simp] theorem Decl.function?_function (f : FnDecl) : (Decl.function f).function? = some f := rfl

@[simp] theorem Decl.function?_global (v : VarDecl) : (Decl.global v).function? = none := rfl

namespace Registry

theorem issue?_eq_none_iff {r : Registry} {f : FnDecl} :
    r.issue? f = none ↔ f.name ≠ printName ∧ r.get? f.name = none := by
  by_cases hp : f.name = printName
  · simp [issue?, hp]
  · cases hf : r.get? f.name <;> simp [issue?, contains, hp, hf]

/-- A name that is taken keeps its signature. -/
theorem get?_declare_of_some {r : Registry} {x : String} {s : Signature} (hx : r.get? x = some s)
    (f : FnDecl) (i : Nat) : (r.declare f i).get? x = some s := by
  by_cases hf : r.issue? f = none
  · have hne : x ≠ f.name := by
      rintro rfl
      rw [(issue?_eq_none_iff.1 hf).2] at hx
      cases hx
    rw [declare, if_pos hf, get?_install, Signature.ofDecl, if_neg hne, hx]
  · rw [declare, if_neg hf, hx]

theorem get?_declareFrom_of_some {x : String} {s : Signature} (ds : List Decl) :
    ∀ {r : Registry} (i : Nat), r.get? x = some s → (r.declareFrom i ds).get? x = some s := by
  induction ds with
  | nil => exact fun _ hx ↦ hx
  | cons d ds ih =>
    intro r i hx
    cases d with
    | function f => exact ih (i + 1) (get?_declare_of_some hx f i)
    | global v => exact ih (i + 1) hx

/-! ### What a name stands for

A name is given away once, so after all declarations it stands for the first function that has it.
The number of a declaration is part of its signature but says nothing about how the function may be
called, and it is left out of the comparison. -/

/-- A declaration gives its name to the function, unless it is taken.  The number of the declaration
is not a part of the profile. -/
theorem map_get?_declare (r : Registry) (f : FnDecl) (i : Nat) {x : String} (hx : x ≠ printName) :
    ((r.declare f i).get? x).map Signature.profile
      = ((r.get? x).map Signature.profile).or (if f.name = x then some f.profile else none) := by
  cases hs : r.get? x with
  | some s => simp [get?_declare_of_some hs]
  | none =>
    by_cases hfx : f.name = x
    · subst hfx
      have hf : r.issue? f = none := issue?_eq_none_iff.2 ⟨hx, hs⟩
      simp [declare, hf, get?_install, Signature.ofDecl, Signature.profile, FnDecl.profile]
    · have hxf : x ≠ f.name := fun h ↦ hfx h.symm
      by_cases hf : r.issue? f = none <;>
        simp [declare, hf, get?_install, Signature.ofDecl, hfx, hxf, hs]

/-- A name stands for the first function that is declared with it. -/
theorem map_get?_declareFrom {x : String} (hx : x ≠ printName) (ds : List Decl) :
    ∀ (r : Registry) (i : Nat), ((r.declareFrom i ds).get? x).map Signature.profile
      = ((r.get? x).map Signature.profile).or
        (((ds.filterMap Decl.function?).find? (·.name = x)).map FnDecl.profile) := by
  induction ds with
  | nil => intro r i; simp [declareFrom]
  | cons d ds ih =>
    intro r i
    cases d with
    | global v => simp [declareFrom, ih]
    | function f =>
      rw [declareFrom, ih, map_get?_declare r f i hx, Option.or_assoc]
      by_cases hfx : f.name = x <;> simp [hfx]

/-- The function for output is not installed. -/
theorem get?_declareFrom_printName (ds : List Decl) : ∀ (r : Registry) (i : Nat),
    r.get? printName = none → (r.declareFrom i ds).get? printName = none := by
  induction ds with
  | nil => exact fun _ _ hr ↦ hr
  | cons d ds ih =>
    intro r i hr
    cases d with
    | global v => exact ih r (i + 1) hr
    | function f =>
      refine ih _ (i + 1) ?_
      by_cases hf : r.issue? f = none
      · have hne : printName ≠ f.name := fun h ↦ (issue?_eq_none_iff.1 hf).1 h.symm
        rw [declare, if_pos hf, get?_install, Signature.ofDecl, if_neg hne, hr]
      · rw [declare, if_neg hf, hr]

/-! ### Which functions are installed

A function is refused if its name is that of the function for output or is taken.  So whether
anything is reported depends on the list of names alone, and if nothing is, all functions are
installed. -/

/-- After a function that could be installed, its name is not free any more. -/
theorem issue?_declare_eq_none_iff {r : Registry} {f : FnDecl} (hf : r.issue? f = none) (i : Nat)
    (g : FnDecl) : (r.declare f i).issue? g = none ↔ r.issue? g = none ∧ g.name ≠ f.name := by
  rw [issue?_eq_none_iff, issue?_eq_none_iff, declare, if_pos hf, get?_install, Signature.ofDecl]
  by_cases hg : g.name = f.name <;> simp [hg]

/-- Functions are installed without a report exactly when their names are different and free. -/
theorem diagnostics_installEvents_eq_nil_iff (ds : List Decl) : ∀ {r : Registry} {i : Nat},
    Event.diagnostics (r.installEvents i ds) = [] ↔
      ((ds.filterMap Decl.function?).map FnDecl.name).Nodup ∧
        ∀ f ∈ ds.filterMap Decl.function?, r.issue? f = none := by
  induction ds with
  | nil => intro r i; simp [installEvents]
  | cons d ds ih =>
    intro r i
    cases d with
    | global v =>
      rw [installEvents, ih, List.filterMap_cons_none (Decl.function?_global v)]
    | function f =>
      have hcons : Event.diagnostics (r.installEvents i (.function f :: ds)) = [] ↔
          r.issue? f = none ∧
            Event.diagnostics ((r.declare f i).installEvents (i + 1) ds) = [] := by
        simp [installEvents, Event.diagnostics_cons, Event.diagnostic?]
      rw [hcons, ih, List.filterMap_cons_some (Decl.function?_function f), List.map_cons,
        List.nodup_cons, List.forall_mem_cons]
      constructor
      -- `f` takes its own name and no other one, so the rest has to avoid this name as well
      · rintro ⟨hf, hnodup, hfree⟩
        simp only [issue?_declare_eq_none_iff hf] at hfree
        refine ⟨⟨?_, hnodup⟩, hf, fun g hg ↦ (hfree g hg).1⟩
        intro hmem
        obtain ⟨g, hg, heq⟩ := List.mem_map.1 hmem
        exact (hfree g hg).2 heq
      · rintro ⟨⟨hmem, hnodup⟩, hf, hfree⟩
        refine ⟨hf, hnodup, fun g hg ↦ (issue?_declare_eq_none_iff hf i g).2 ⟨hfree g hg, ?_⟩⟩
        intro heq
        exact hmem (heq ▸ List.mem_map_of_mem hg)

/-- Every function among the declarations is installed under its own number. -/
def Installed (r : Registry) : Nat → List Decl → Prop
  | _, [] => True
  | i, .function f :: ds => r.isInstalled f.name i = true ∧ Installed r (i + 1) ds
  | i, .global _ :: ds => Installed r (i + 1) ds

/-- Functions that were installed without a report are all installed. -/
theorem installed_declareFrom (ds : List Decl) : ∀ {r : Registry} {i : Nat},
    Event.diagnostics (r.installEvents i ds) = [] → (r.declareFrom i ds).Installed i ds := by
  induction ds with
  | nil => intro r i _; trivial
  | cons d ds ih =>
    intro r i h
    cases d with
    | global v => exact ih h
    | function f =>
      have hds : Event.diagnostics ((r.declare f i).installEvents (i + 1) ds) = [] := by
        rw [installEvents, Event.diagnostics_cons, Event.diagnostics_append,
          List.append_eq_nil_iff, List.append_eq_nil_iff] at h
        exact h.2.2
      have hf : r.issue? f = none :=
        ((diagnostics_installEvents_eq_nil_iff _).1 h).2 f (by simp)
      -- `f` has its entry once it is declared, and no later function takes it away
      have hget : (r.declare f i).get? f.name = some (.ofDecl f i) := by
        rw [declare, if_pos hf, get?_install, Signature.ofDecl, if_pos rfl]
      refine ⟨?_, ih hds⟩
      rw [isInstalled, declareFrom, get?_declareFrom_of_some ds (i + 1) hget]
      simp [Signature.ofDecl]

/-- The entry function is not reported about if it is there, takes nothing and returns nothing. -/
theorem diagnostics_entryEvents_eq_nil_iff {r : Registry} {entry : String} :
    Event.diagnostics (r.entryEvents entry) = [] ↔
      (r.get? entry).map Signature.profile = some ([], Ty.void.name) := by
  cases hs : r.get? entry with
  | none => simp [entryEvents, hs]
  | some s =>
    by_cases hp : s.params = [] <;> by_cases hr : s.returnType = Ty.void.name <;>
      simp [entryEvents, hs, hp, hr, Signature.profile]

end Registry

/-- Where all functions are installed, the diagnostics are those of each function in turn. -/
theorem Decl.diagnostics_eventsFrom (σ : Site) (ds : List Decl) : ∀ {i : Nat},
    σ.registry.Installed i ds → Event.diagnostics (Decl.eventsFrom σ i ds)
      = (ds.filterMap Decl.function?).flatMap fun f ↦ Event.diagnostics (f.events σ) := by
  induction ds with
  | nil => intro i _; rfl
  | cons d ds ih =>
    intro i h
    cases d with
    | global v =>
      rw [eventsFrom, events, List.nil_append, ih h,
        List.filterMap_cons_none (Decl.function?_global v)]
    | function f =>
      rw [eventsFrom, events, if_pos h.1, Event.diagnostics_append, ih h.2,
        List.filterMap_cons_some (Decl.function?_function f), List.flatMap_cons]

/-! ## Programs

Before the bodies are checked, all functions and all globals are known.  So the context is the same
for all functions, and it is exact. -/

/-- The functions of a program are checked in an exact context. -/
theorem Program.exact_site (p : Program) : p.site.context.Exact p.env := by
  -- outside of the global scope no variable is known, and all functions are
  have houter : p.outerSite.context.Exact ⟨[], p.functions⟩ := by
    refine ⟨fun x ↦ rfl, ?_⟩
    intro f hf
    have hget := Registry.map_get?_declareFrom hf p.decls .empty 0
    rwa [Registry.get?_empty, Option.map_none, Option.none_or] at hget
  exact houter.push p.globals

/-- The declaration `d'` is `d` with other annotations, which may have lost types where `lax`
holds. -/
structure FnDecl.Blurs (lax : Prop) (d d' : FnDecl) : Prop where
  name : d'.name = d.name
  params : Forall₂ (VarDecl.Blurs lax) d.params d'.params
  result : ∀ t : Ty, d.returnType = t.name → Near lax t (Ty.ofName? d'.returnType)

theorem FnDecl.Blurs.refl (lax : Prop) (d : FnDecl) : d.Blurs lax d where
  name := rfl
  params := VarDecl.forall₂_blurs_refl lax d.params
  result := by
    intro t ht
    rw [ht, Ty.ofName?_name]
    exact near_some lax t

/-- The first function with a name among blurred ones. -/
theorem FnDecl.find?_of_blurs {lax : Prop} {fs gs : List FnDecl}
    (h : Forall₂ (FnDecl.Blurs lax) fs gs) {x : String} {d : FnDecl}
    (hd : fs.find? (·.name = x) = some d) :
    ∃ d', gs.find? (·.name = x) = some d' ∧ d.Blurs lax d' := by
  induction h with
  | nil => cases hd
  | @cons f g fs gs hfg _ ih =>
    by_cases hx : f.name = x
    · have hdf : f = d := by simpa [hx] using hd
      exact ⟨g, by simp [hfg.name, hx], hdf ▸ hfg⟩
    · obtain ⟨d', hd', hblur⟩ := ih (by simpa [hx] using hd)
      exact ⟨d', by simpa [hfg.name, hx] using hd', hblur⟩

/-- The functions of a program with worse annotations are checked in a context that reflects the
program. -/
theorem Program.reflects_site {lax : Prop} {p q : Program}
    (hglobals : Forall₂ (VarDecl.Blurs lax) p.globals q.globals)
    (hfunctions : Forall₂ (FnDecl.Blurs lax) p.functions q.functions) :
    q.site.context.Reflects lax p.env := by
  have houter : q.outerSite.context.Reflects lax ⟨[], p.functions⟩ := by
    refine ⟨fun hx ↦ by simp [Env.varDecl?] at hx, ?_⟩
    intro f d hf hd
    obtain ⟨d', hd', hblur⟩ := FnDecl.find?_of_blurs hfunctions hd
    have hget := q.exact_site.fn hf
    have hd'' : q.env.fnDecl? f = some d' := hd'
    rw [hd'', Option.map_some, Option.map_eq_some_iff] at hget
    obtain ⟨s, hs, heq⟩ := hget
    rw [Signature.profile, FnDecl.profile, Prod.mk.injEq] at heq
    refine ⟨s, hs, ?_, ?_⟩
    · rw [heq.1, List.forall₂_map_right_iff]
      exact hblur.params.imp fun v w hvw ↦ hvw.typed
    · rw [Signature.result?, heq.2]
      exact hblur.result
  exact houter.push hglobals

end Typewright
