import Typewright.Proofs.Isolation

/-!
# The first declaration of a name wins

Globals, parameters and locals are declared by three loops, each in a scope that was just opened.
Of several declarations of a name in one list the first one is bound, and each of the others is
reported once, at its position and in the order of the list: `Check.first_declaration_wins`.

The step of a loop is `Scope.Loop.cons`, and its scope after some declarations binds exactly their
names.  So the diagnostics of a whole list come one declaration after the other, and what is said
about a declaration depends only on whether its name occurs before it
(`Scope.Loop.diagnostics_eq_flatMap`).

From this equation two facts are read off by topic: which names are reported
(`Scope.Loop.about_redeclaring`), which is the matter of this file, and which annotations are
(`Scope.Loop.about_annotating`), which is needed later.  In the second one the loops differ.  That
over the globals skips a declaration whose name is taken; the other two look at its annotation all
the same.
-/

set_option autoImplicit false

namespace Typewright

open Diagnostic

/-! ## Declarations of one name

Which declarations of a list are the first of their name is a matter of positions in the list, not
of the declarations: a list may hold the same declaration twice, and the second one is a repetition.
So both lists are taken from the list with its indices. -/

namespace VarDecl

/-- One of the first `i` declarations has the name of `v`. -/
def isTaken (vs : List VarDecl) (i : Nat) (v : VarDecl) : Bool :=
  v.name ∈ (vs.take i).map VarDecl.name

/-- The declarations whose name is not declared before, in order. -/
def firsts (vs : List VarDecl) : List VarDecl :=
  (vs.zipIdx.filter fun x ↦ !x.1.isTaken vs x.2).map Prod.fst

/-- The declarations whose name is declared before, in order. -/
def repeats (vs : List VarDecl) : List VarDecl :=
  (vs.zipIdx.filter fun x ↦ x.1.isTaken vs x.2).map Prod.fst

/-- Every declaration of a list is one of the two. -/
theorem perm_repeats_firsts (vs : List VarDecl) : (repeats vs ++ firsts vs).Perm vs := by
  have hperm := (List.filter_append_perm (fun x ↦ isTaken vs x.2 x.1) vs.zipIdx).map Prod.fst
  rwa [List.map_append, List.zipIdx_map_fst] at hperm

/-- The declaration that a search by name finds is the first of its name. -/
theorem mem_firsts_of_find? {vs : List VarDecl} {x : String} {v : VarDecl}
    (h : vs.find? (·.name = x) = some v) : v ∈ firsts vs := by
  obtain ⟨hname, i, hi, hget, hbefore⟩ := List.find?_eq_some_iff_getElem.1 h
  have hmem : (v, i) ∈ vs.zipIdx :=
    List.mem_zipIdx_iff_getElem?.2 (List.getElem?_eq_some_iff.2 ⟨hi, hget⟩)
  refine List.mem_map.2 ⟨(v, i), List.mem_filter.2 ⟨hmem, ?_⟩, rfl⟩
  rw [isTaken, Bool.not_eq_true', decide_eq_false_iff_not, List.mem_map]
  rintro ⟨w, hw, hwv⟩
  obtain ⟨j, hj, rfl⟩ := List.mem_take_iff_getElem.1 hw
  have hne := hbefore j (by omega)
  simp [hwv, of_decide_eq_true hname] at hne

/-- The declaration binds its name like this: to the type of a value that it is annotated with, and
to no type if the annotation is `Void` or names no type. -/
inductive Binds (v : VarDecl) : Binding → Prop
  | typed {t : Ty} (h : v.HasType t) : Binds v (.typed t)
  | rejected (h : ∀ t, ¬ v.HasType t) : Binds v .rejected

/-- The binding of a declaration in the words of the type system. -/
theorem binds_iff {v : VarDecl} {b : Binding} : v.Binds b ↔ v.binding = b := by
  rw [binding]
  constructor
  · rintro (h | h)
    · rw [hasType_iff.1 h]
      rfl
    · have hnone : Ty.ofVariable? v.typeName = none :=
        Option.eq_none_iff_forall_ne_some.2 fun t ht ↦ h t (hasType_iff.2 ht)
      rw [hnone]
      rfl
  · rintro rfl
    cases ht : Ty.ofVariable? v.typeName with
    | none =>
      refine .rejected fun t h ↦ ?_
      rw [hasType_iff, ht] at h
      cases h
    | some t => exact .typed (hasType_iff.2 ht)

end VarDecl

/-! ## What a loop reports

The three loops are one as far as reports go, `Scope.Loop`, with parameters for the wording and for
whether a taken name is skipped.  The induction over a list of declarations keeps the ones that are
done as a list of its own, since the scope of the loop is determined by them. -/

theorem flatMap_ite_nil {α β : Type} (p : α → Bool) (g : α → List β) (as : List α) :
    (as.flatMap fun a ↦ if p a then g a else []) = (as.filter p).flatMap g := by
  induction as with
  | nil => rfl
  | cons a as ih => cases hp : p a <;> simp [hp, ih]

namespace Scope

/-- The scope after some declarations binds their names and no others. -/
theorem isSome_lookup_declareAll (vs : List VarDecl) (x : String) :
    ((declareAll [] vs).lookup x).isSome = decide (x ∈ vs.map VarDecl.name) := by
  rw [lookup_declareAll, List.lookup_nil, Option.none_or, Option.isSome_map, Bool.eq_iff_iff,
    List.find?_isSome, decide_eq_true_iff, List.mem_map]
  simp only [decide_eq_true_iff]

theorem declareAll_append_singleton (us : List VarDecl) (v : VarDecl) :
    declareAll [] (us ++ [v]) = (declareAll [] us).declare v :=
  List.foldl_concat declare [] v us

namespace Loop

variable {skips : Bool} {void duplicate : VarDecl → Issue}
  {events : Scope → List VarDecl → List Event}

/-- The diagnostics about `vs` after a loop has declared `us`. -/
theorem diagnostics_after (h : Loop skips void duplicate events) (vs : List VarDecl) :
    ∀ us : List VarDecl, Event.diagnostics (events (declareAll [] us) vs)
      = (vs.zipIdx us.length).flatMap fun x ↦
        x.1.loopDiagnostics skips (x.1.isTaken (us ++ vs) x.2) (void x.1) (duplicate x.1) := by
  induction vs with
  | nil => exact fun us ↦ h.nil _
  | cons v vs ih =>
    intro us
    have hrest := ih (us ++ [v])
    rw [declareAll_append_singleton, List.append_assoc, List.length_append] at hrest
    -- that the name is taken is the same in the list and in the scope
    have htaken : v.isTaken (us ++ v :: vs) us.length
        = ((declareAll [] us).lookup v.name).isSome := by
      rw [VarDecl.isTaken, List.take_left, isSome_lookup_declareAll]
    rw [h.cons, hrest, List.zipIdx_cons, List.flatMap_cons, htaken]
    rfl

/-- What is said about a declaration depends on the names before it. -/
theorem diagnostics_eq_flatMap (h : Loop skips void duplicate events) (vs : List VarDecl) :
    Event.diagnostics (events [] vs) = vs.zipIdx.flatMap fun x ↦
      x.1.loopDiagnostics skips (x.1.isTaken vs x.2) (void x.1) (duplicate x.1) :=
  h.diagnostics_after vs []

/-- What one declaration reports about its name. -/
theorem about_redeclaring_loopDiagnostics (h : Loop skips void duplicate events) (taken : Bool)
    (v : VarDecl) :
    about .redeclaring (v.loopDiagnostics skips taken (void v) (duplicate v))
      = if taken then [.located (duplicate v) v.position] else [] := by
  have htype : about .redeclaring (v.annotationDiagnostics (void v)) = [] :=
    (v.topic_annotationDiagnostics (h.topic_void v)).about_eq_nil (by decide)
  have hduplicate : about .redeclaring [.located (duplicate v) v.position]
      = [.located (duplicate v) v.position] :=
    KeepTo.about_eq_self (List.forall_mem_singleton.2
      (List.mem_singleton.2 (h.topic_duplicate v)))
  rw [VarDecl.loopDiagnostics, about_append]
  cases skips <;> cases taken <;> simp [htype, hduplicate]

/-- What one declaration reports about its annotation. -/
theorem about_annotating_loopDiagnostics (h : Loop skips void duplicate events) (taken : Bool)
    (v : VarDecl) :
    about .annotating (v.loopDiagnostics skips taken (void v) (duplicate v))
      = if skips && taken then [] else v.annotationDiagnostics (void v) := by
  have htype : about .annotating (v.annotationDiagnostics (void v))
      = v.annotationDiagnostics (void v) :=
    (v.topic_annotationDiagnostics (h.topic_void v)).about_eq_self
  have hduplicate : about .annotating [.located (duplicate v) v.position] = [] :=
    KeepTo.about_eq_nil (List.forall_mem_singleton.2
      (List.mem_singleton.2 (h.topic_duplicate v))) (by decide)
  rw [VarDecl.loopDiagnostics, about_append]
  cases skips <;> cases taken <;> simp [htype, hduplicate]

/-- The name of a declaration is reported about exactly if it is declared before. -/
theorem about_redeclaring (h : Loop skips void duplicate events) (vs : List VarDecl) :
    about .redeclaring (Event.diagnostics (events [] vs))
      = (VarDecl.repeats vs).map fun v ↦ .located (duplicate v) v.position := by
  rw [h.diagnostics_eq_flatMap, about_flatMap, VarDecl.repeats, List.map_map, List.map_eq_flatMap,
    ← flatMap_ite_nil]
  exact List.flatMap_congr fun x _ ↦ h.about_redeclaring_loopDiagnostics _ x.1

/-- The annotation of a declaration is reported about in any case, but for a loop that skips the
declarations whose name is declared before. -/
theorem about_annotating (h : Loop skips void duplicate events) (vs : List VarDecl) :
    about .annotating (Event.diagnostics (events [] vs))
      = (if skips then VarDecl.firsts vs else vs).flatMap fun v ↦
        v.annotationDiagnostics (void v) := by
  have hstep := List.flatMap_congr fun (x : VarDecl × Nat) (_ : x ∈ vs.zipIdx) ↦
    h.about_annotating_loopDiagnostics (x.1.isTaken vs x.2) x.1
  rw [h.diagnostics_eq_flatMap, about_flatMap, hstep]
  cases skips with
  | false =>
    have hfst := List.flatMap_map Prod.fst (fun v ↦ v.annotationDiagnostics (void v)) vs.zipIdx
    rw [List.zipIdx_map_fst] at hfst
    exact hfst.symm
  | true =>
    rw [if_pos rfl, VarDecl.firsts, List.flatMap_map, ← flatMap_ite_nil]
    refine List.flatMap_congr fun x _ ↦ ?_
    cases x.1.isTaken vs x.2 <;> rfl

end Loop
end Scope

/-! ## The three loops

What is left is to run the loops.  Each opens a scope first, which is where `declareAll []` in the
lemmas above comes from. -/

/-- From the state `c` the action opens a scope and declares `vs` there, and the first declaration
of a name wins.  The issue `duplicate` is that of another declaration of the name. -/
structure Check.BindsFirst {α : Type} (m : Check α) (duplicate : VarDecl → Issue)
    (vs : List VarDecl) (c : Checker) (a : α) (d : Checker) : Prop where
  run : (do enterScope; m : Check α).run c = .ok a d
  /-- The new scope binds the declared names, each as its first declaration does, and the scopes
  around it are as they were. -/
  scopes : ∃ f : Scope, d.scopes.frames = f :: c.scopes.frames ∧
    ∀ x b, f.lookup x = some b ↔ ∃ v, vs.find? (·.name = x) = some v ∧ v.Binds b
  /-- Every other declaration is reported as such once, at its position. -/
  reported : ∃ ds, d.diagnostics = c.diagnostics ++ ds ∧
    about .redeclaring ds = (VarDecl.repeats vs).map fun v ↦ .located (duplicate v) v.position

namespace Check

theorem openGlobals_apply (p : Program) (c : Checker) :
    (do enterScope; installGlobals p : Check Unit) c
      = .ok () (c.move (c.site.push (Scope.declareAll [] p.globals))
        (.enteredScope (c.site.scopes.depth + 1) :: (Scope.globalEvents [] p.globals
          ++ [.installedGlobals (Scope.countGlobals [] p.globals)]))) := by
  simp [installGlobals, installGlobalsOf_move]

theorem openParams_apply (function : String) (vs : List VarDecl) (c : Checker) :
    (do enterScope; declareParams function vs : Check Unit) c
      = .ok () (c.move (c.site.push (Scope.declareAll [] vs))
        (.enteredScope (c.site.scopes.depth + 1) :: Scope.paramEvents function [] vs)) := by
  simp

theorem openLocals_apply (vs : List VarDecl) (c : Checker) :
    (do enterScope; declareLocals vs : Check Unit) c
      = .ok () (c.move (c.site.push (Scope.declareAll [] vs))
        (.enteredScope (c.site.scopes.depth + 1) :: Scope.localEvents [] vs)) := by
  simp

end Check

theorem Scope.lookup_declareAll_eq_some_iff {vs : List VarDecl} {x : String} {b : Binding} :
    (declareAll [] vs).lookup x = some b ↔ ∃ v, vs.find? (·.name = x) = some v ∧ v.Binds b := by
  simp only [lookup_declareAll, List.lookup_nil, Option.none_or, Option.map_eq_some_iff,
    VarDecl.binds_iff]

/-- What the run of a loop comes to, from its events. -/
theorem Scope.Loop.bindsFirst {α : Type} {m : Check α} {skips : Bool}
    {void duplicate : VarDecl → Issue} {events : Scope → List VarDecl → List Event}
    (h : Loop skips void duplicate events) {vs : List VarDecl} {c : Checker} {a : α}
    {es : List Event}
    (hrun : (do Check.enterScope; m : Check α) c
      = .ok a (c.move (c.site.push (declareAll [] vs)) es))
    (hes : Event.diagnostics es = Event.diagnostics (events [] vs)) :
    Check.BindsFirst m duplicate vs c a (c.move (c.site.push (declareAll [] vs)) es) where
  run := hrun
  scopes := ⟨declareAll [] vs, rfl, fun _ _ ↦ lookup_declareAll_eq_some_iff⟩
  reported := by
    refine ⟨_, Checker.diagnostics_move _ _ _, ?_⟩
    rw [hes]
    exact h.about_redeclaring vs

/-- **The first declaration of a name wins, and every later one is reported once.**  From any state,
the loops over the globals of a program, over parameters and over locals come to an end when they
are run in a scope that was just opened.  That scope binds exactly the declared names then, each to
what its first declaration says, and no other scope has changed.  Every declaration of a name that
is declared before is reported as such, at its position and in order, and no other. -/
theorem Check.first_declaration_wins (c : Checker) :
    (∀ p : Program, ∃ d,
      BindsFirst (installGlobals p) (.globalAlreadyDeclared ·.name) p.globals c () d) ∧
    (∀ (function : String) (vs : List VarDecl), ∃ d,
      BindsFirst (declareParams function vs) (.duplicateParameter function ·.name) vs c () d) ∧
    ∀ vs : List VarDecl, ∃ d,
      BindsFirst (declareLocals vs) (.localAlreadyDeclared ·.name) vs c () d := by
  refine ⟨fun p ↦ ⟨_, Scope.loop_globals.bindsFirst (openGlobals_apply p c) ?_⟩,
    fun function vs ↦ ⟨_, (Scope.loop_params function).bindsFirst (openParams_apply function vs c)
      rfl⟩,
    fun vs ↦ ⟨_, Scope.loop_locals.bindsFirst (openLocals_apply vs c) rfl⟩⟩
  simp [Event.diagnostics_cons, Event.diagnostic?]

end Typewright
