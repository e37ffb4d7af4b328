import Mathlib.Data.List.FinRange
import Mathlib.Logic.Equiv.Defs
import Typewright.Proofs.Agreement
import Typewright.Proofs.Isolation

/-!
# The order of declarations does not matter

Functions may be called and global variables used before they are declared, so a program can be put
in another order.  A `Program.Reordering` moves every declaration to a place of its own, and of two
functions with one name, or two global variables with one name, the first stays the first.  Then the
check comes to the same: `Program.Reordering.check_perm`.

What a name stands for is decided by the first declaration of it (`Program.First`), and a reordering
keeps what is first.  So functions are checked at sites that agree
(`Program.Reordering.agrees_site`), and what is reported about a declaration is the same at its new
place.

## Why a reordering is data

That one list of declarations is a permutation of another does not say which declaration went where,
if the list has equal ones.  The theorem speaks of the numbers of declarations, in the registry and
in the program that the check gives, so it needs the map of the places; a `Reordering` is that map
with its properties.  The condition on names cannot be left out.  Of two functions with one name the
first is installed and the second is reported, and if they trade places another body is checked.

Diagnostics come in the order of the text, so only the diagnostics as a multiset are kept.
`check_countingReordering` has two orders of a program with different lists of diagnostics.
-/

set_option autoImplicit false

namespace Typewright

/-! ## First declarations

The registry and the global scope are built by going through the declarations in order.
`Program.First` says the same without an order of steps: by what stands before in the text.
Everything after this section is about that predicate, which a reordering keeps. -/

/-- What a declaration gives a meaning to: the name of a function or the name of a variable.  A
function and a variable may share a name. -/
def Decl.key : Decl → String ⊕ String
  | .function f => .inl f.name
  | .global v => .inr v.name

namespace Program

/-- Declaration number `i` is the first one of its name. -/
def First (p : Program) (i : Fin p.decls.length) : Prop :=
  ∀ j < i, (p.decls.get j).key ≠ (p.decls.get i).key

variable {p : Program} {i : Fin p.decls.length}

theorem first_iff : p.First i ↔ ∀ d ∈ p.decls.take i, d.key ≠ (p.decls.get i).key := by
  constructor
  · intro h d hd
    obtain ⟨j, hj, rfl⟩ := List.mem_take_iff_getElem.1 hd
    exact h ⟨j, by omega⟩ (show j < i.1 by omega)
  · intro h j hj
    exact h _ (List.mem_take_iff_getElem.2 ⟨j, by have := i.2; omega, rfl⟩)

/-- Every declaration has a first one of its name. -/
theorem exists_first (i : Fin p.decls.length) :
    ∃ j, p.First j ∧ (p.decls.get j).key = (p.decls.get i).key := by
  induction i using WellFoundedLT.induction with
  | ind i ih =>
    by_cases h : p.First i
    · exact ⟨i, h, rfl⟩
    · simp only [First, not_forall, not_not] at h
      obtain ⟨j, hj, hkey⟩ := h
      obtain ⟨k, hk, hkj⟩ := ih j hj
      exact ⟨k, hk, hkj.trans hkey⟩

/-- What is declared at all is declared by a first declaration. -/
theorem exists_first_of_key {k : String ⊕ String} (h : ¬ ∀ d ∈ p.decls, d.key ≠ k) :
    ∃ i, p.First i ∧ (p.decls.get i).key = k := by
  simp only [not_forall, not_not] at h
  obtain ⟨d, hd, rfl⟩ := h
  obtain ⟨j, rfl⟩ := List.get_of_mem hd
  exact p.exists_first j

theorem decls_eq_take_append (p : Program) (i : Fin p.decls.length) :
    p.decls = p.decls.take i ++ p.decls.get i :: p.decls.drop (i + 1) := by
  simp

end Program

/-! ### Functions

A name is given to the first function with it, whose number the signature carries.  The name of the
function for output is given to none. -/

namespace Registry

theorem declareFrom_append (ds es : List Decl) : ∀ (r : Registry) (i : Nat),
    r.declareFrom i (ds ++ es) = (r.declareFrom i ds).declareFrom (i + ds.length) es := by
  induction ds with
  | nil => intro r i; rfl
  | cons d ds ih =>
    intro r i
    have hlen : i + (d :: ds).length = i + 1 + ds.length := by
      rw [List.length_cons]
      omega
    cases d with
    | function f => rw [List.cons_append, declareFrom, ih, declareFrom, hlen]
    | global v => rw [List.cons_append, declareFrom, ih, declareFrom, hlen]

/-- A name is free as long as no function is declared with it. -/
theorem get?_declareFrom_eq_none_iff {x : String} (hx : x ≠ printName) {ds : List Decl} :
    (empty.declareFrom 0 ds).get? x = none ↔ ∀ d ∈ ds, d.key ≠ .inl x := by
  have hget := map_get?_declareFrom hx ds .empty 0
  rw [get?_empty, Option.map_none, Option.none_or] at hget
  rw [← Option.map_eq_none_iff, hget, Option.map_eq_none_iff, List.find?_eq_none]
  constructor
  · intro h d hd hkey
    cases d with
    | function f =>
      exact h f (List.mem_filterMap.2 ⟨_, hd, rfl⟩) (decide_eq_true (Sum.inl.inj hkey))
    | global v => cases hkey
  · intro h f hf
    obtain ⟨d, hd, hdf⟩ := List.mem_filterMap.1 hf
    cases d with
    | function g =>
      cases hdf
      exact fun hname ↦ h _ hd (congrArg Sum.inl (of_decide_eq_true hname))
    | global v => cases hdf

end Registry

namespace Program

variable {p : Program} {i : Fin p.decls.length}

/-- The first function with a name is the one that is installed. -/
theorem get?_registry_of_first (hi : p.First i) {f : FnDecl} (hf : p.decls.get i = .function f)
    (hname : f.name ≠ printName) : p.registry.get? f.name = some (.ofDecl f i) := by
  have hfree : (Registry.empty.declareFrom 0 (p.decls.take i)).get? f.name = none := by
    rw [Registry.get?_declareFrom_eq_none_iff hname]
    have hkey := first_iff.1 hi
    rwa [hf] at hkey
  have hlen : 0 + (p.decls.take i).length = i := by
    rw [List.length_take]
    omega
  -- up to this declaration the name is free, here it is given away, and then it is taken
  have hregistry : p.registry = ((Registry.empty.declareFrom 0 (p.decls.take i)).declare f i
      ).declareFrom (i + 1) (p.decls.drop (i + 1)) := by
    calc p.registry
      _ = .declareFrom .empty 0 (p.decls.take i ++ .function f :: p.decls.drop (i + 1)) := by
        rw [← hf, ← p.decls_eq_take_append i, registry]
      _ = _ := by rw [Registry.declareFrom_append, hlen, Registry.declareFrom]
  rw [hregistry]
  refine Registry.get?_declareFrom_of_some _ _ ?_
  rw [Registry.declare, if_pos (Registry.issue?_eq_none_iff.2 ⟨hname, hfree⟩),
    Registry.get?_install, Signature.ofDecl, if_pos rfl]

/-- Only the first function with a name is installed. -/
theorem exists_first_of_get?_registry {x : String} {s : Signature}
    (h : p.registry.get? x = some s) : ∃ i f, p.First i ∧ p.decls.get i = .function f ∧
      f.name = x ∧ x ≠ printName ∧ s = .ofDecl f i := by
  have hx : x ≠ printName := by
    rintro rfl
    rw [registry, Registry.get?_declareFrom_printName _ _ _ (Registry.get?_empty _)] at h
    cases h
  have hsome : ¬ ∀ d ∈ p.decls, d.key ≠ .inl x := by
    rw [← Registry.get?_declareFrom_eq_none_iff hx, ← registry, h]
    simp
  obtain ⟨i, hi, hkey⟩ := exists_first_of_key hsome
  cases hf : p.decls.get i with
  | global v => rw [hf] at hkey; cases hkey
  | function f =>
    rw [hf] at hkey
    obtain rfl : f.name = x := Sum.inl.inj hkey
    rw [get?_registry_of_first hi hf hx, Option.some_inj] at h
    exact ⟨i, f, hi, hf, rfl, hx, h.symm⟩

/-- The numbers by which a check tells installed functions mean what is meant by first. -/
theorem isInstalled_iff {f : FnDecl} (hf : p.decls.get i = .function f) :
    p.registry.isInstalled f.name i ↔ f.name ≠ printName ∧ p.First i := by
  constructor
  · intro h
    cases hs : p.registry.get? f.name with
    | none =>
      rw [Registry.isInstalled, hs] at h
      cases h
    | some s =>
      obtain ⟨j, g, hj, -, -, hname, rfl⟩ := exists_first_of_get?_registry hs
      rw [Registry.isInstalled, hs] at h
      obtain rfl : j = i := Fin.ext (of_decide_eq_true h)
      exact ⟨hname, hj⟩
  · rintro ⟨hname, hi⟩
    rw [Registry.isInstalled, get?_registry_of_first hi hf hname]
    exact decide_eq_true rfl

end Program

/-! ### Global variables

The same for variables, by the lookup in the global scope. -/

/-- A name is free as long as no global variable is declared with it. -/
theorem Scope.lookup_declareAll_eq_none_iff {x : String} {ds : List Decl} :
    (Scope.declareAll [] (ds.filterMap Decl.global?)).lookup x = none ↔
      ∀ d ∈ ds, d.key ≠ .inr x := by
  rw [lookup_declareAll, List.lookup_nil, Option.none_or, Option.map_eq_none_iff,
    List.find?_eq_none]
  constructor
  · intro h d hd hkey
    cases d with
    | function f => cases hkey
    | global v =>
      exact h v (List.mem_filterMap.2 ⟨_, hd, rfl⟩) (decide_eq_true (Sum.inr.inj hkey))
  · intro h v hv
    obtain ⟨d, hd, hdv⟩ := List.mem_filterMap.1 hv
    cases d with
    | function f => cases hdv
    | global w =>
      cases hdv
      exact fun hname ↦ h _ hd (congrArg Sum.inr (of_decide_eq_true hname))

namespace Program

variable {p : Program} {i : Fin p.decls.length}

/-- The first global variable with a name is the one that the name stands for. -/
theorem lookup_globalScope_of_first (hi : p.First i) {v : VarDecl}
    (hv : p.decls.get i = .global v) : p.globalScope.lookup v.name = some v.binding := by
  have hfree : (Scope.declareAll [] ((p.decls.take i).filterMap Decl.global?)).lookup v.name
      = none := by
    rw [Scope.lookup_declareAll_eq_none_iff]
    have hkey := first_iff.1 hi
    rwa [hv] at hkey
  have hglobals : p.globals = (p.decls.take i).filterMap Decl.global?
      ++ v :: (p.decls.drop (i + 1)).filterMap Decl.global? := by
    calc p.globals
      _ = (p.decls.take i ++ .global v :: p.decls.drop (i + 1)).filterMap Decl.global? := by
        rw [← hv, ← p.decls_eq_take_append i, globals]
      _ = _ := List.filterMap_append
  rw [globalScope, hglobals, Scope.declareAll, List.foldl_append, ← Scope.declareAll,
    ← Scope.declareAll, Scope.lookup_declareAll, hfree]
  simp

theorem exists_first_of_lookup_globalScope {x : String} {b : Binding}
    (h : p.globalScope.lookup x = some b) :
    ∃ i v, p.First i ∧ p.decls.get i = .global v ∧ v.name = x ∧ b = v.binding := by
  have hsome : ¬ ∀ d ∈ p.decls, d.key ≠ .inr x := by
    rw [← Scope.lookup_declareAll_eq_none_iff, ← globals, ← globalScope, h]
    simp
  obtain ⟨i, hi, hkey⟩ := exists_first_of_key hsome
  cases hv : p.decls.get i with
  | function f => rw [hv] at hkey; cases hkey
  | global v =>
    rw [hv] at hkey
    obtain rfl : v.name = x := Sum.inr.inj hkey
    rw [lookup_globalScope_of_first hi hv, Option.some_inj] at h
    exact ⟨i, v, hi, hv, rfl, h.symm⟩

end Program

/-! ## What is reported about each declaration

The diagnostics of each pass, as a list over the numbers of the declarations.  What the pass says
about one of them depends on the declarations before it, as far as they have its name. -/

theorem flatMap_finRange_succ {α : Type} {n : Nat} (f : Fin (n + 1) → List α) :
    (List.finRange (n + 1)).flatMap f = f 0 ++ (List.finRange n).flatMap fun k ↦ f k.succ := by
  rw [List.finRange_succ, List.flatMap_cons, List.flatMap_map]

namespace Decl

/-- What is reported about a declaration when functions are installed, after the registry `r`. -/
def installDiagnostics (r : Registry) : Decl → List Diagnostic
  | .function f => (r.issue? f).toList.map (.located · f.position)
  | .global _ => []

/-- What is reported about a declaration when global variables are bound, after the scope `s`. -/
def globalDiagnostics (s : Scope) : Decl → List Diagnostic
  | .function _ => []
  | .global v => (s.globalIssue? v).toList.map (.located · v.position)

theorem diagnostics_installEvents (ds : List Decl) : ∀ (r : Registry) (i : Nat),
    Event.diagnostics (r.installEvents i ds) = (List.finRange ds.length).flatMap fun k ↦
      (ds.get k).installDiagnostics (r.declareFrom i (ds.take k)) := by
  induction ds with
  | nil => exact fun _ _ ↦ rfl
  | cons d ds ih =>
    intro r i
    refine Eq.trans ?_ (flatMap_finRange_succ _).symm
    cases d with
    | function f =>
      rw [Registry.installEvents, Event.diagnostics_cons, Event.diagnostics_append, ih,
        diagnostics_reports]
      rfl
    | global v =>
      rw [Registry.installEvents, ih]
      rfl

theorem diagnostics_globalEvents (ds : List Decl) : ∀ s : Scope,
    Event.diagnostics (s.globalEvents (ds.filterMap global?)) =
      (List.finRange ds.length).flatMap fun k ↦
        (ds.get k).globalDiagnostics (s.declareAll ((ds.take k).filterMap global?)) := by
  induction ds with
  | nil => exact fun _ ↦ rfl
  | cons d ds ih =>
    intro s
    refine Eq.trans ?_ (flatMap_finRange_succ _).symm
    cases d with
    | function f => exact ih s
    | global v =>
      show Event.diagnostics (s.globalEvents (v :: ds.filterMap global?)) = _
      rw [Scope.globalEvents, Event.diagnostics_cons, Event.diagnostics_append, ih,
        diagnostics_reports]
      rfl

theorem diagnostics_eventsFrom_eq_finRange (σ : Site) (ds : List Decl) :
    Event.diagnostics (eventsFrom σ 0 ds) = (List.finRange ds.length).flatMap fun k ↦
      Event.diagnostics ((ds.get k).events σ k) := by
  have hzip : ds.zipIdx = (List.finRange ds.length).map fun k ↦ (ds.get k, k.1) :=
    List.ext_getElem (by simp) (by simp)
  rw [diagnostics_eventsFrom_eq_flatMap, hzip, List.flatMap_map]

end Decl

/-! ## Reorderings

A statement about every declaration of `p` is compared with one about every declaration of `q` at
the place it went to.  `perm_flatMap` makes a permutation out of such comparisons, and the lemmas
after it provide one for each pass. -/

/-- A way to put the declarations of `p` in the order of `q`, where of two functions with one name
or two global variables with one name the first stays the first. -/
structure Program.Reordering (p q : Program) where
  place : Fin p.decls.length ≃ Fin q.decls.length
  /-- A declaration is moved and not changed. -/
  get_place : ∀ i, q.decls.get (place i) = p.decls.get i
  place_lt : ∀ i j, (p.decls.get i).key = (p.decls.get j).key → i < j → place i < place j

namespace Program.Reordering

variable {p q : Program}

/-- The way back. -/
def symm (h : Reordering p q) : Reordering q p where
  place := h.place.symm
  get_place := by
    intro i
    rw [← h.get_place, Equiv.apply_symm_apply]
  place_lt := by
    intro i j hkey hij
    rcases lt_trichotomy (h.place.symm i) (h.place.symm j) with hlt | heq | hgt
    · exact hlt
    · exact absurd (h.place.symm.injective heq) hij.ne
    · have hji := h.place_lt (h.place.symm j) (h.place.symm i)
        (by rw [← h.get_place, ← h.get_place, Equiv.apply_symm_apply, Equiv.apply_symm_apply,
          hkey]) hgt
      rw [Equiv.apply_symm_apply, Equiv.apply_symm_apply] at hji
      exact absurd hij hji.not_gt

/-- What is first stays first. -/
theorem first (h : Reordering p q) {i : Fin p.decls.length} (hi : p.First i) :
    q.First (h.place i) := by
  intro j hj hkey
  have hback : h.symm.place (h.place i) = i := h.place.symm_apply_apply i
  have hlt := h.symm.place_lt j (h.place i) hkey hj
  rw [hback] at hlt
  refine hi _ hlt ?_
  rw [h.symm.get_place, hkey, h.get_place]

theorem first_iff (h : Reordering p q) {i : Fin p.decls.length} :
    q.First (h.place i) ↔ p.First i := by
  constructor
  · intro hi
    have hback := h.symm.first hi
    rwa [show h.symm.place (h.place i) = i from h.place.symm_apply_apply i] at hback
  · exact h.first

/-- What is said about every declaration, in any order. -/
theorem perm_flatMap {α : Type} (h : Reordering p q) {f : Fin p.decls.length → List α}
    {g : Fin q.decls.length → List α} (hfg : ∀ i, g (h.place i) = f i) :
    ((List.finRange _).flatMap f).Perm ((List.finRange _).flatMap g) := by
  -- the places of all declarations of `p` are all places in `q`, each once
  have hplaces : ((List.finRange p.decls.length).map h.place).Perm
      (List.finRange q.decls.length) := by
    rw [List.perm_ext_iff_of_nodup ((List.nodup_finRange _).map h.place.injective)
      (List.nodup_finRange _)]
    intro j
    simp only [List.mem_map, List.mem_finRange, true_and, iff_true]
    exact h.place.surjective j
  have hf : f = fun i ↦ g (h.place i) := funext fun i ↦ (hfg i).symm
  rw [hf, ← List.flatMap_map]
  exact hplaces.flatMap_right g

/-- The signature `t` is `s` with the number that its declaration has after the reordering. -/
def Renumbers (h : Reordering p q) (s t : Signature) : Prop :=
  ∃ i : Fin p.decls.length, s.index = i ∧ t = { s with index := h.place i }

/-! ### What a reordering keeps

Names are given away in the order of declarations, but only the order among those of one name
counts, and that is kept.  So the registry and the global scope are the same up to the numbers of
functions, and every body is checked at a site that agrees. -/

/-- A name is given to the same function. -/
theorem rel_get?_registry (h : Reordering p q) (x : String) :
    Option.Rel h.Renumbers (p.registry.get? x) (q.registry.get? x) := by
  cases hs : p.registry.get? x with
  | some s =>
    obtain ⟨i, f, hi, hf, rfl, hname, rfl⟩ := exists_first_of_get?_registry hs
    rw [get?_registry_of_first (h.first hi) ((h.get_place i).trans hf) hname]
    exact .some ⟨i, rfl, rfl⟩
  | none =>
    cases ht : q.registry.get? x with
    | none => exact .none
    | some t =>
      obtain ⟨i, f, hi, hf, rfl, hname, rfl⟩ := exists_first_of_get?_registry ht
      rw [get?_registry_of_first (h.symm.first hi) ((h.symm.get_place i).trans hf) hname] at hs
      cases hs

/-- A name stands for the same global variable. -/
theorem lookup_globalScope (h : Reordering p q) (x : String) :
    q.globalScope.lookup x = p.globalScope.lookup x := by
  cases hb : p.globalScope.lookup x with
  | some b =>
    obtain ⟨i, v, hi, hv, rfl, rfl⟩ := exists_first_of_lookup_globalScope hb
    exact lookup_globalScope_of_first (h.first hi) ((h.get_place i).trans hv)
  | none =>
    cases hc : q.globalScope.lookup x with
    | none => rfl
    | some c =>
      obtain ⟨i, v, hi, hv, rfl, rfl⟩ := exists_first_of_lookup_globalScope hc
      rw [lookup_globalScope_of_first (h.symm.first hi) ((h.symm.get_place i).trans hv)] at hb
      cases hb

/-- A registry only changes the numbers of the functions. -/
theorem agrees_registry (h : Reordering p q) : p.registry.Agrees q.registry := by
  intro x
  have hrel := h.rel_get?_registry x
  generalize p.registry.get? x = s, q.registry.get? x = t at hrel ⊢
  cases hrel with
  | none => exact .none
  | some hst =>
    obtain ⟨i, -, rfl⟩ := hst
    exact .some ⟨_, rfl⟩

/-- Functions are checked at sites that agree. -/
theorem agrees_site (h : Reordering p q) : p.site.Agrees q.site :=
  Program.agrees_site h.agrees_registry h.lookup_globalScope

/-! ### One declaration at its new place

What is reported about a declaration is the same at its new place.  The diagnostics of a program are
those of its declarations in turn, so those of two programs in different orders are permutations of
each other (`perm_flatMap`). -/

theorem isInstalled (h : Reordering p q) {i : Fin p.decls.length} {f : FnDecl}
    (hf : p.decls.get i = .function f) :
    q.registry.isInstalled f.name (h.place i) = p.registry.isInstalled f.name i := by
  rw [Bool.eq_iff_iff, isInstalled_iff hf, isInstalled_iff ((h.get_place i).trans hf), h.first_iff]

/-- Of two declarations that correspond, both have a name that is still free, or neither has. -/
theorem forall_take_iff (h : Reordering p q) (i : Fin p.decls.length) :
    (∀ d ∈ q.decls.take (h.place i), d.key ≠ (p.decls.get i).key) ↔
      ∀ d ∈ p.decls.take i, d.key ≠ (p.decls.get i).key := by
  rw [← Program.first_iff, ← h.first_iff, Program.first_iff, h.get_place]

theorem installDiagnostics (h : Reordering p q) (i : Fin p.decls.length) :
    (q.decls.get (h.place i)).installDiagnostics
        (Registry.empty.declareFrom 0 (q.decls.take (h.place i)))
      = (p.decls.get i).installDiagnostics (Registry.empty.declareFrom 0 (p.decls.take i)) := by
  have htake := h.forall_take_iff i
  rw [h.get_place]
  cases hd : p.decls.get i with
  | global v => rfl
  | function f =>
    rw [Decl.installDiagnostics, Decl.installDiagnostics, Registry.issue?, Registry.issue?]
    by_cases hname : f.name = printName
    · rw [if_pos hname, if_pos hname]
    · rw [hd, Decl.key, ← Registry.get?_declareFrom_eq_none_iff hname,
        ← Registry.get?_declareFrom_eq_none_iff hname] at htake
      rw [Registry.contains, Registry.contains, Option.isSome_eq_isSome.2 htake]

theorem globalDiagnostics (h : Reordering p q) (i : Fin p.decls.length) :
    (q.decls.get (h.place i)).globalDiagnostics
        (Scope.declareAll [] ((q.decls.take (h.place i)).filterMap Decl.global?))
      = (p.decls.get i).globalDiagnostics
        (Scope.declareAll [] ((p.decls.take i).filterMap Decl.global?)) := by
  have htake := h.forall_take_iff i
  rw [h.get_place]
  cases hd : p.decls.get i with
  | function f => rfl
  | global v =>
    rw [hd, Decl.key, ← Scope.lookup_declareAll_eq_none_iff,
      ← Scope.lookup_declareAll_eq_none_iff] at htake
    rw [Decl.globalDiagnostics, Decl.globalDiagnostics, Scope.globalIssue?, Scope.globalIssue?,
      Option.isSome_eq_isSome.2 htake]

/-- The body of a function is checked in the same way at its new place. -/
theorem decl_events (h : Reordering p q) (i : Fin p.decls.length) :
    (q.decls.get (h.place i)).events q.site (h.place i) = (p.decls.get i).events p.site i := by
  rw [h.get_place]
  cases hd : p.decls.get i with
  | global v => rfl
  | function f =>
    show (if q.registry.isInstalled f.name (h.place i) then f.events q.site else _) =
      if p.registry.isInstalled f.name i then f.events p.site else _
    rw [h.isInstalled hd, f.events_congr h.agrees_site]

theorem decl_annotate (h : Reordering p q) (i : Fin p.decls.length) :
    (q.decls.get (h.place i)).annotate q.site.context (h.place i)
      = (p.decls.get i).annotate p.site.context i := by
  rw [h.get_place]
  cases hd : p.decls.get i with
  | global v => rfl
  | function f =>
    show Decl.function (if q.registry.isInstalled f.name (h.place i) then _ else f) =
      .function (if p.registry.isInstalled f.name i then _ else f)
    rw [h.isInstalled hd, f.annotate_congr h.agrees_site.context]

/-- The same is reported, in an order that may be another one. -/
theorem diagnostics_perm (h : Reordering p q) (entry : String) :
    (p.diagnostics entry).Perm (q.diagnostics entry) := by
  rw [diagnostics_eq, diagnostics_eq, h.agrees_registry.entryEvents, Decl.diagnostics_installEvents,
    Decl.diagnostics_installEvents, globals, globals, Decl.diagnostics_globalEvents,
    Decl.diagnostics_globalEvents, Decl.diagnostics_eventsFrom_eq_finRange,
    Decl.diagnostics_eventsFrom_eq_finRange]
  refine (h.perm_flatMap h.installDiagnostics).append (.append_left _ ?_)
  exact (h.perm_flatMap h.globalDiagnostics).append
    (h.perm_flatMap fun i ↦ congrArg Event.diagnostics (h.decl_events i))

end Program.Reordering

namespace Program

/-! ## The whole check

The passes together, and then a program where two functions trade places. -/

/-- Two verdicts that are the same: if one program is halted, so is the other, by the same
diagnostics in some order. -/
inductive SameVerdict : Except Rejection Unit → Except Rejection Unit → Prop
  | ok : SameVerdict (.ok ()) (.ok ())
  | halted {ds ds' : List Diagnostic} (h : ds.Perm ds') :
    SameVerdict (.error (.halted ds)) (.error (.halted ds'))

/-- A verdict depends on the diagnostics up to their order. -/
theorem sameVerdict_of_perm {p q : Program} {entry : String}
    (h : (p.diagnostics entry).Perm (q.diagnostics entry)) :
    SameVerdict (p.verdict entry) (q.verdict entry) := by
  rw [verdict, verdict, check_eq, check_eq]
  simp only [diagnostics_checked, List.isEmpty_iff]
  by_cases hp : p.diagnostics entry = []
  · have hq : q.diagnostics entry = [] := (hp ▸ h).nil_eq.symm
    rw [if_pos hp, if_pos hq]
    exact .ok
  · have hq : ¬ q.diagnostics entry = [] := fun hq ↦ hp (hq ▸ h).eq_nil
    rw [if_neg hp, if_neg hq]
    exact .halted h

theorem getElem?_annotate (p : Program) (i : Fin p.decls.length) :
    p.annotate.decls[i.1]? = some ((p.decls.get i).annotate p.site.context i) := by
  rw [annotate, Decl.getElem?_annotateFrom, Nat.zero_add, List.getElem?_eq_getElem i.2]
  rfl

/-- **The order of declarations does not matter.**  After a reordering the check reports the same
diagnostics in some order and gives the same verdict, every name is given to the same function,
which has the number of its new place, and every declaration gets the same types. -/
theorem Reordering.check_perm {p q : Program} (h : Reordering p q) (entry : String) :
    ∃ p' c q' c', p.check entry = .ok (p', c) ∧ q.check entry = .ok (q', c') ∧
      c.diagnostics.Perm c'.diagnostics ∧
      SameVerdict (p.verdict entry) (q.verdict entry) ∧
      (∀ x, Option.Rel h.Renumbers (c.registry.get? x) (c'.registry.get? x)) ∧
      ∀ i, ∃ d, p'.decls[(i : Fin _).1]? = some d ∧ q'.decls[(h.place i).1]? = some d := by
  have hperm := h.diagnostics_perm entry
  refine ⟨_, _, _, _, p.check_eq entry, q.check_eq entry, ?_, sameVerdict_of_perm hperm,
    h.rel_get?_registry, fun i ↦ ⟨_, p.getElem?_annotate i, ?_⟩⟩
  · rwa [diagnostics_checked, diagnostics_checked]
  · rw [q.getElem?_annotate, h.decl_annotate]

/-- The function `func main() Void { n = next(); m; }`, where `m` is not declared. -/
def countingMain : Decl :=
  .function {
    name := "main"
    params := []
    returnType := "Void"
    body := ⟨⟨1, 18⟩, [], [.expr (.assign ⟨⟨1, 20⟩, none⟩ "n" (.call ⟨⟨1, 24⟩, none⟩ "next" [])),
      .expr (.var ⟨⟨1, 32⟩, none⟩ "m")]⟩
    position := ⟨1, 1⟩ }

/-- The function `func next() Int { return m; }`. -/
def countingNext : Decl :=
  .function {
    name := "next"
    params := []
    returnType := "Int"
    body := ⟨⟨3, 17⟩, [], [.ret ⟨3, 19⟩ (.var ⟨⟨3, 26⟩, none⟩ "m")]⟩
    position := ⟨3, 1⟩ }

/-- A program with the functions `f` and `g` around the global variable `n`, and then another
function `next` and another variable `n`. -/
def counting (f g : Decl) : Program where
  decls :=
    [f, .global ⟨"n", "Int", ⟨2, 1⟩⟩, g,
      .function ⟨"next", [], "Void", .empty ⟨4, 18⟩, ⟨4, 1⟩⟩, .global ⟨"n", "Float", ⟨5, 1⟩⟩]

/-- The way to exchange the functions `f` and `g` there. -/
def countingSwap : Equiv.Perm (Fin 5) := Equiv.swap 0 2

/-- The function that is called can come before the one that calls it, or after it. -/
def countingReordering :
    Reordering (counting countingMain countingNext) (counting countingNext countingMain) where
  place := countingSwap
  get_place := by
    intro (i : Fin 5)
    match i with
    | 0 | 1 | 2 | 3 | 4 => rfl
  place_lt := by
    have hlt : ∀ i j : Fin 5, ((counting countingMain countingNext).decls.get i).key
        = ((counting countingMain countingNext).decls.get j).key →
        i < j → countingSwap i < countingSwap j := by
      decide
    exact hlt

/-- The second `next` and the second `n` are reported about in both orders, and so is `m` in both of
the functions, but in one order first in `main` and in the other first in `next`. -/
theorem check_countingReordering :
    (counting countingMain countingNext).diagnostics "main"
      ≠ (counting countingNext countingMain).diagnostics "main" ∧
    ∃ p' c q' c', (counting countingMain countingNext).check "main" = .ok (p', c) ∧
      (counting countingNext countingMain).check "main" = .ok (q', c') ∧
      c.diagnostics.Perm c'.diagnostics ∧ c.diagnostics.length = 4 := by
  obtain ⟨p', c, q', c', hp, hq, hperm, -⟩ := countingReordering.check_perm "main"
  refine ⟨by decide, p', c, q', c', hp, hq, hperm, ?_⟩
  rw [check_eq, Except.ok.injEq, Prod.mk.injEq] at hp
  rw [← hp.2, diagnostics_checked]
  decide

end Program

end Typewright
