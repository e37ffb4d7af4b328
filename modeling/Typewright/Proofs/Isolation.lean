import Typewright.Proofs.Annotation

/-!
# Functions are checked independently of each other

The check of a program goes through its functions one after the other, in one state.  Nothing of a
function is left in that state for the next one but the log, and the log is not looked at.  So every
function may as well be checked alone, from a snapshot of the state that the declarations leave:
`Program.check_separately`.

`Check.Alone m c a ds` is what such a check comes to: from the state `c`, but with nothing logged,
the action `m` gives `a` and reports `ds`.  It is a statement about a run of the same action that
the whole check uses, not about the events of the model, so the theorem can be read without them.

That a function leaves no trace is not proved here.  It is a part of what is known about the action
already: `Check.function_apply` says that it comes back to the site where it started.  What remains
is to put the functions of a program next to each other, and to skip those that are not installed.
-/

set_option autoImplicit false

namespace Typewright

open Diagnostic

/-! ## Actions alone

An action whose effect is a move, to a site and with some events, reports the same whatever was
logged before. -/

/-- The state with nothing logged. -/
def Checker.unlogged (c : Checker) : Checker := { c with log := #[] }

@[simp] theorem Checker.diagnostics_unlogged (c : Checker) : c.unlogged.diagnostics = [] := rfl

namespace Check

variable {α : Type}

/-- From the state `c`, but with nothing logged, the action gives `a` and reports `ds`. -/
def Alone (m : Check α) (c : Checker) (a : α) (ds : List Diagnostic) : Prop :=
  ∃ d, m.run c.unlogged = .ok a d ∧ d.diagnostics = ds

/-- What an action reports alone can be read off its events. -/
theorem alone_of_move {m : Check α} {c : Checker} {a : α} {σ : Site} {es : List Event}
    (h : m c.unlogged = .ok a (c.unlogged.move σ es)) : Alone m c a (Event.diagnostics es) :=
  ⟨_, h, by rw [Checker.diagnostics_move, Checker.diagnostics_unlogged, List.nil_append]⟩

theorem alone_function (f : FnDecl) (c : Checker) :
    Alone (function f) c (f.annotate c.site.context) (Event.diagnostics (f.events c.site)) :=
  alone_of_move (function_apply f c.unlogged)

/-- Functions that are checked in a row all start at the same site. -/
theorem functions_apply (fs : List FnDecl) : ∀ c : Checker,
    fs.mapM function c = .ok (fs.map (FnDecl.annotate c.site.context))
      (c.move c.site (fs.flatMap (FnDecl.events c.site))) := by
  induction fs with
  | nil =>
    intro c
    simp
  | cons f fs ih =>
    intro c
    simp [List.mapM_cons, function_apply, ih]

/-- Functions that are checked in a row are checked as each of them alone. -/
theorem alone_functions (fs : List FnDecl) (c : Checker) :
    Alone (fs.mapM function) c (fs.map (FnDecl.annotate c.site.context))
      (fs.flatMap fun f ↦ Event.diagnostics (f.events c.site)) := by
  have halone := alone_of_move (functions_apply fs c.unlogged)
  rwa [Event.diagnostics, List.filterMap_flatMap] at halone

end Check

/-! ## Installed functions

A check tells by the number of a declaration whether it is the one that was installed under its
name.  `Program.installed` are the functions for which this is so, without the numbers. -/

/-- The function that declaration number `i` installs, if it does. -/
def Decl.installed? (r : Registry) (d : Decl) (i : Nat) : Option FnDecl :=
  d.function?.filter (r.isInstalled ·.name i)

/-- Declaration number `i`, where `g` is done to a function that is installed. -/
def Decl.mapInstalled (r : Registry) (g : FnDecl → FnDecl) (i : Nat) : Decl → Decl
  | .global v => .global v
  | .function f => .function (if r.isInstalled f.name i then g f else f)

/-- The functions of a program that are installed, in order. -/
def Program.installed (p : Program) (r : Registry) : List FnDecl :=
  p.decls.zipIdx.filterMap fun x ↦ x.1.installed? r x.2

namespace Decl

theorem diagnostics_events (σ : Site) (d : Decl) (i : Nat) : Event.diagnostics (d.events σ i)
    = (d.installed? σ.registry i).toList.flatMap fun f ↦ Event.diagnostics (f.events σ) := by
  cases d with
  | global v => rfl
  | function f =>
    by_cases hf : σ.registry.isInstalled f.name i <;>
      simp [events, installed?, Option.filter, hf, Event.diagnostics_cons, Event.diagnostic?]

theorem diagnostics_eventsFrom_eq_flatMap (σ : Site) (ds : List Decl) : ∀ i : Nat,
    Event.diagnostics (eventsFrom σ i ds)
      = (ds.zipIdx i).flatMap fun x ↦ Event.diagnostics (x.1.events σ x.2) := by
  induction ds with
  | nil => exact fun _ ↦ rfl
  | cons d ds ih =>
    intro i
    rw [eventsFrom, Event.diagnostics_append, ih, List.zipIdx_cons, List.flatMap_cons]

/-- The check changes a declaration if it is an installed function. -/
theorem annotate_eq_mapInstalled (Γ : Context) (i : Nat) (d : Decl) :
    d.annotate Γ i = d.mapInstalled Γ.registry (FnDecl.annotate Γ) i := by
  cases d <;> rfl

end Decl

/-! ## Programs

Three passes, and then the functions.  `Passes` names the states between the passes, since each of
them is run from the state that the one before leaves. -/

namespace Program

/-- The diagnostics of the functions of a program are those of the installed ones in order. -/
theorem diagnostics_functions (p : Program) :
    Event.diagnostics (Decl.eventsFrom p.site 0 p.decls)
      = (p.installed p.registry).flatMap fun f ↦ Event.diagnostics (f.events p.site) := by
  rw [Decl.diagnostics_eventsFrom_eq_flatMap, installed, List.filterMap_eq_flatMap_toList,
    List.flatMap_assoc]
  exact List.flatMap_congr fun x _ ↦ Decl.diagnostics_events p.site x.1 x.2

/-- The diagnostics of a program about a topic, pass by pass. -/
theorem about_diagnostics (p : Program) (entry : String) (t : Topic) :
    about t (p.diagnostics entry)
      = about t (Event.diagnostics (Registry.empty.installEvents 0 p.decls))
        ++ (about t (Event.diagnostics (p.registry.entryEvents entry))
          ++ (about t (Event.diagnostics (Scope.globalEvents [] p.globals))
            ++ (p.installed p.registry).flatMap fun f ↦
              about t (Event.diagnostics (f.events p.site)))) := by
  rw [diagnostics_eq, diagnostics_functions, about_append, about_append, about_append,
    about_flatMap]

/-- The declarations after the check: the installed functions are changed, each at its number. -/
theorem decls_annotate (p : Program) : p.annotate.decls
    = p.decls.mapIdx (Decl.mapInstalled p.registry (FnDecl.annotate p.site.context)) := by
  refine List.ext_getElem? fun i ↦ ?_
  rw [annotate, Decl.getElem?_annotateFrom, List.getElem?_mapIdx, Nat.zero_add]
  cases p.decls[i]? with
  | none => rfl
  | some d => exact congrArg some (d.annotate_eq_mapInstalled p.site.context i)

/-- The three passes over the declarations of a program, before a check comes to the functions: they
report `ds₁`, `ds₂` and `ds₃`, each when it is run alone, and they leave a state outside of all
functions and loops where the global scope is the only one. -/
inductive Passes (p : Program) (entry : String) :
    List Diagnostic → List Diagnostic → List Diagnostic → Checker → Prop
  | mk {installed looked bound : Checker} {ds₁ ds₂ ds₃ : List Diagnostic} {globals : Scope}
      (hinstalled : (Check.installFunctions p).run (.start entry) = .ok () installed)
      (hds₁ : Check.Alone (Check.installFunctions p) (.start entry) () ds₁)
      (hlooked : Check.entry.run installed = .ok () looked)
      (hds₂ : Check.Alone Check.entry installed () ds₂)
      (hbound : (do Check.enterScope; Check.installGlobals p : Check Unit).run looked
        = .ok () bound)
      (hds₃ : Check.Alone (do Check.enterScope; Check.installGlobals p) looked () ds₃)
      (hscopes : bound.scopes = ⟨[globals]⟩) (hfunction : bound.function = none)
      (hloops : bound.loopDepth = 0) : Passes p entry ds₁ ds₂ ds₃ bound

/-- The events of installing the functions of a program. -/
def functionEvents (p : Program) : List Event :=
  Registry.empty.installEvents 0 p.decls ++ [.installedFunctions p.registry.size]

/-- The events of binding the global variables of a program. -/
def globalEvents (p : Program) : List Event :=
  .enteredScope 1 :: (Scope.globalEvents [] p.globals
    ++ [.installedGlobals (Scope.countGlobals [] p.globals)])

theorem installFunctions_start (p : Program) (entry : String) :
    Check.installFunctions p (.start entry)
      = .ok () ((Checker.start entry).move p.outerSite p.functionEvents) := by
  have hfns : Check.installFunctionsFrom 0 p.decls (.start entry)
      = .ok () ((Checker.start entry).move p.outerSite
        (Registry.empty.installEvents 0 p.decls)) :=
    Check.installFunctionsFrom_move (.start entry) p.decls 0 (Checker.start entry).site []
  simp [Check.installFunctions, hfns, functionEvents]

theorem installGlobals_apply (p : Program) {c : Checker} (hc : c.site = p.outerSite) :
    (do Check.enterScope; Check.installGlobals p : Check Unit) c
      = .ok () (c.move p.site p.globalEvents) := by
  simp [Check.installGlobals, Check.installGlobalsOf_move, globalEvents, hc, site, globalScope]

/-- The three passes come to an end, at the site where the functions are checked. -/
theorem exists_passes (p : Program) (entry : String) : ∃ c, c.site = p.site ∧
    p.Passes entry (Event.diagnostics p.functionEvents)
      (Event.diagnostics (p.registry.entryEvents entry)) (Event.diagnostics p.globalEvents) c := by
  have hinstalled := p.installFunctions_start entry
  have hlooked := Check.entry_apply ((Checker.start entry).move p.outerSite p.functionEvents)
  have hbound := p.installGlobals_apply (Checker.site_move
    ((Checker.start entry).move p.outerSite p.functionEvents) p.outerSite
      (p.registry.entryEvents entry))
  exact ⟨_, rfl, .mk hinstalled (Check.alone_of_move hinstalled) hlooked
    (Check.alone_of_move (Check.entry_apply _)) hbound
    (Check.alone_of_move (p.installGlobals_apply rfl)) rfl rfl rfl⟩

/-- **Functions are checked independently of each other.**  The diagnostics of a program are those
of the three passes over its declarations and then, for every installed function in order, those of
the check of this function alone, from the state that the passes leave.  The check alone also gives
the function with its types.  Any functions in any order can be checked in a row from that state,
and each comes out as it does alone. -/
theorem check_separately (p : Program) (entry : String) :
    ∃ ds₁ ds₂ ds₃ c, p.Passes entry ds₁ ds₂ ds₃ c ∧
      ∃ (typed : FnDecl → FnDecl) (reported : FnDecl → List Diagnostic),
        (∀ f, Check.Alone (Check.function f) c (typed f) (reported f)) ∧
        (∀ fs : List FnDecl,
          Check.Alone (fs.mapM Check.function) c (fs.map typed) (fs.flatMap reported)) ∧
        ∃ q d, p.check entry = .ok (q, d) ∧ d.registry = c.registry ∧
          d.diagnostics = ds₁ ++ ds₂ ++ ds₃ ++ (p.installed d.registry).flatMap reported ∧
          q.decls = p.decls.mapIdx (Decl.mapInstalled d.registry typed) := by
  obtain ⟨c, hc, hpasses⟩ := p.exists_passes entry
  refine ⟨_, _, _, c, hpasses, _, _, fun f ↦ Check.alone_function f c,
    fun fs ↦ Check.alone_functions fs c, p.annotate, p.checked entry, p.check_eq entry,
    (congrArg Site.registry hc).symm, ?_, ?_⟩
  · rw [hc, diagnostics_checked, diagnostics_eq, diagnostics_functions]
    simp [functionEvents, globalEvents, Event.diagnostics_cons, Event.diagnostic?, checked]
  · rw [hc]
    exact p.decls_annotate

end Program

end Typewright
