import Typewright.Proofs.Places

/-!
# Every function is installed and checked once, or reported once

A function is installed if its name is not that of the function for output and no function before it
has the name.  `Program.check_installs` says what becomes of every function of a program.  The
registry has exactly the installed ones.  Each of the others is reported once, and else the check
goes on as if it was not there (`Program.diagnostics_withoutRefused`).

The last pass of a check goes through the declarations one by one.  `Decl.Step` is what it does to
one of them: the body of an installed function is checked there, and nowhere else in the log.

## How the checks of bodies are told apart

That a body is checked "once" has to be said of the log, and the log of a program is one list of
events.  `Decl.Steps` cuts it into pieces, one for each declaration and in order, so a piece that
shows the check of a body belongs to one function only; before the first piece there are no events
of functions at all (`Program.isOfFunction_declared`).  A count of the events with the name of a
function would say less.  Two functions can share a name, and the events of one of them could then
be taken for those of the other.

`FnDecl.Enters` says in which state the check of a body begins, by what is bound and by what is in
the log so far.  From there the step is a run of the action `Check.block` itself.
-/

set_option autoImplicit false

namespace Typewright

open Diagnostic

/-! ## Functions that are not installed

The first pass reports a function when it does not install it.  No other pass reports anything of
this kind, so these are all diagnostics of the topic. -/

/-- What is reported about a function that is not installed. -/
def FnDecl.refusal (f : FnDecl) : Diagnostic :=
  .located (if f.name = printName then .printRedefined else .functionAlreadyDeclared f.name)
    f.position

/-- The function that declaration number `i` declares and does not install, if it is one. -/
def Decl.refused? (r : Registry) (d : Decl) (i : Nat) : Option FnDecl :=
  d.function?.filter (!r.isInstalled ·.name i)

namespace Program

/-- The functions of a program that are not installed, in order. -/
def refused (p : Program) (r : Registry) : List FnDecl :=
  p.decls.zipIdx.filterMap fun x ↦ x.1.refused? r x.2

/-- The program without the functions that are not installed. -/
def withoutRefused (p : Program) (r : Registry) : Program :=
  ⟨(p.decls.zipIdx.filter fun x ↦ (x.1.refused? r x.2).isNone).map Prod.fst⟩

/-- A name is taken when it is the turn of a function, unless that is the first with the name. -/
theorem contains_declareFrom_take {p : Program} {i : Fin p.decls.length} {f : FnDecl}
    (hf : p.decls.get i = .function f) (hname : f.name ≠ printName) :
    (Registry.empty.declareFrom 0 (p.decls.take i)).contains f.name ↔ ¬ p.First i := by
  rw [Registry.contains, Option.isSome_iff_ne_none, ne_eq,
    Registry.get?_declareFrom_eq_none_iff hname, first_iff, hf, Decl.key]

/-- A function is reported when it is its turn to be installed, and it is not. -/
theorem installDiagnostics_take (p : Program) (i : Fin p.decls.length) :
    (p.decls.get i).installDiagnostics (Registry.empty.declareFrom 0 (p.decls.take i))
      = ((p.decls.get i).refused? p.registry i).toList.map FnDecl.refusal := by
  cases hd : p.decls.get i with
  | global v => rfl
  | function f =>
    have hinstalled := isInstalled_iff hd
    rw [Decl.installDiagnostics, Registry.issue?, Decl.refused?, Decl.function?_function,
      Option.filter_some]
    by_cases hname : f.name = printName
    · have hnot : p.registry.isInstalled f.name i = false :=
        Bool.eq_false_iff.2 fun h ↦ (hinstalled.1 h).1 hname
      simp [hname, hname ▸ hnot, FnDecl.refusal]
    · by_cases hfirst : p.First i
      · have hfree := mt (contains_declareFrom_take hd hname).1 (not_not.2 hfirst)
        simp [hname, hfree, hinstalled.2 ⟨hname, hfirst⟩]
      · have hnot : p.registry.isInstalled f.name i = false :=
          Bool.eq_false_iff.2 fun h ↦ hfirst (hinstalled.1 h).2
        simp [hname, (contains_declareFrom_take hd hname).2 hfirst, hnot, FnDecl.refusal]

/-- The first pass reports the functions that it does not install. -/
theorem diagnostics_installEvents (p : Program) :
    Event.diagnostics (Registry.empty.installEvents 0 p.decls)
      = (p.refused p.registry).map FnDecl.refusal := by
  have hzip : p.decls.zipIdx = (List.finRange p.decls.length).map fun i ↦ (p.decls.get i, i.1) :=
    List.ext_getElem (by simp) (by simp)
  rw [Decl.diagnostics_installEvents, refused, List.map_filterMap, hzip, List.filterMap_map,
    List.filterMap_eq_flatMap_toList]
  refine List.flatMap_congr fun i _ ↦ ?_
  rw [installDiagnostics_take]
  simp [Option.toList_map]

/-- What a check reports after it has installed the functions is about other topics. -/
theorem keepTo_after_install (p : Program) (entry : String) :
    KeepTo (.entry :: .printing :: Topic.ofBody)
      (Event.diagnostics (p.registry.entryEvents entry)
        ++ (Event.diagnostics (Scope.globalEvents [] p.globals)
          ++ Event.diagnostics (Decl.eventsFrom p.site 0 p.decls))) := by
  rw [diagnostics_functions, keepTo_append, keepTo_append, keepTo_flatMap]
  exact ⟨(Registry.topic_entryEvents _ entry).mono (by decide),
    (Scope.loop_globals.topic_events p.globals []).mono (by decide),
    fun f _ ↦ (f.topic_events p.site).mono (by decide)⟩

/-- The functions that are not installed are reported, and no other is. -/
theorem about_installing (p : Program) (entry : String) :
    about .installing (p.diagnostics entry) = (p.refused p.registry).map FnDecl.refusal := by
  rw [diagnostics_eq, about_append, (p.keepTo_after_install entry).about_eq_nil (by decide),
    (Registry.topic_installEvents _ _ _).about_eq_self, List.append_nil,
    diagnostics_installEvents]

/-! ## The program without them

A program without its refused functions is one where all functions are installed, so it has the same
registry up to numbers, and the last pass does the same to it.  What the first pass had to say about
them is gone, and nothing else. -/

section WithoutRefused

variable (p : Program) (r : Registry)

/-- Only functions are taken away. -/
theorem globals_withoutRefused : (p.withoutRefused r).globals = p.globals := by
  have hzip : p.globals = p.decls.zipIdx.filterMap fun x ↦ x.1.global? := by
    conv_lhs => rw [globals, ← List.zipIdx_map_fst 0 p.decls, List.filterMap_map]
    rfl
  rw [hzip, globals, withoutRefused, List.filterMap_map, List.filterMap_filter]
  refine List.filterMap_congr fun x _ ↦ ?_
  cases hx : x.1 with
  | global v => simp [Decl.refused?, hx]
  | function f => simp [Decl.global?, hx]

/-- The functions that are left are the installed ones. -/
theorem functions_withoutRefused : (p.withoutRefused r).functions = p.installed r := by
  rw [functions, withoutRefused, installed, List.filterMap_map, List.filterMap_filter]
  refine List.filterMap_congr fun x _ ↦ ?_
  cases hx : x.1 with
  | global v => simp [Decl.installed?, hx]
  | function f =>
    cases hr : r.isInstalled f.name x.2 <;>
      simp [Decl.refused?, Decl.installed?, Option.filter_some, hx, hr]

/-- Installed functions have different names. -/
theorem nodup_installed : ((p.installed r).map FnDecl.name).Nodup := by
  -- two declarations differ in their index, and the entry of a name has one index
  have hindices : p.decls.zipIdx.Pairwise fun x y ↦ x.2 ≠ y.2 := by
    have hnodup : (p.decls.zipIdx.map Prod.snd).Nodup := by
      rw [List.zipIdx_map_snd]
      exact List.nodup_range'
    exact List.pairwise_map.1 hnodup
  rw [installed, List.map_filterMap]
  refine hindices.filterMap _ fun x y hxy a ha b hb hab ↦ hxy ?_
  obtain ⟨f, hf, rfl⟩ := Option.map_eq_some_iff.1 ha
  obtain ⟨g, hg, rfl⟩ := Option.map_eq_some_iff.1 hb
  have hx := (Option.filter_eq_some_iff.1 hf).2
  have hy := (Option.filter_eq_some_iff.1 hg).2
  rw [Registry.isInstalled] at hx hy
  rw [← hab] at hy
  cases hs : r.get? f.name with
  | none =>
    rw [hs] at hx
    cases hx
  | some s =>
    rw [hs] at hx hy
    exact (of_decide_eq_true hx).symm.trans (of_decide_eq_true hy)

end WithoutRefused

theorem mem_functions_iff {p : Program} {f : FnDecl} : f ∈ p.functions ↔ .function f ∈ p.decls := by
  rw [functions, List.mem_filterMap]
  constructor
  · rintro ⟨d, hd, hf⟩
    cases d with
    | global v => cases hf
    | function g =>
      cases hf
      exact hd
  · exact fun h ↦ ⟨_, h, rfl⟩

/-- A name is given to the same function, which may have another number. -/
theorem agrees_registry_withoutRefused (p : Program) :
    p.registry.Agrees (p.withoutRefused p.registry).registry := by
  intro x
  cases hs : (p.withoutRefused p.registry).registry.get? x with
  | some t =>
    obtain ⟨j, f, -, hf, rfl, -, rfl⟩ := exists_first_of_get?_registry hs
    have hmem : f ∈ p.installed p.registry := by
      rw [← functions_withoutRefused, mem_functions_iff, ← hf]
      exact List.get_mem _ j
    -- what the smaller program registers is a function that is installed in the larger one
    obtain ⟨i, hget, hname, hi⟩ := mem_installed_iff.1 hmem
    rw [get?_registry_of_first hi hget hname]
    exact .some ⟨j, rfl⟩
  | none =>
    have hnone : p.registry.get? x = none := by
      rw [get?_registry_eq_none_iff]
      rintro f hf rfl
      obtain ⟨-, -, hname, -⟩ := mem_installed_iff.1 hf
      rw [registry, Registry.get?_declareFrom_eq_none_iff hname] at hs
      rw [← functions_withoutRefused, mem_functions_iff] at hf
      exact hs _ hf rfl
    rw [hnone]
    exact .none

/-- Functions are checked at sites that agree. -/
theorem agrees_site_withoutRefused (p : Program) :
    p.site.Agrees (p.withoutRefused p.registry).site :=
  agrees_site p.agrees_registry_withoutRefused fun x ↦ by
    rw [globalScope, globals_withoutRefused, globalScope]

/-- **A function that is not installed does not change what else is reported.** -/
theorem diagnostics_withoutRefused (p : Program) (entry : String) :
    (p.withoutRefused p.registry).diagnostics entry
      = (p.diagnostics entry).filter (·.issue.topic ≠ .installing) := by
  have hinstall : Event.diagnostics
      (Registry.empty.installEvents 0 (p.withoutRefused p.registry).decls) = [] := by
    rw [diagnostics_installEvents_eq_nil_iff, functions_withoutRefused]
    refine ⟨p.nodup_installed _, fun f hf ↦ ?_⟩
    obtain ⟨-, -, hname, -⟩ := mem_installed_iff.1 hf
    exact hname
  -- refused functions are not checked, so the bodies are the same in both programs
  have hfunctions : (p.withoutRefused p.registry).functions.flatMap
        (fun f ↦ Event.diagnostics (f.events (p.withoutRefused p.registry).site))
      = Event.diagnostics (Decl.eventsFrom p.site 0 p.decls) := by
    rw [functions_withoutRefused, diagnostics_functions]
    exact List.flatMap_congr fun f _ ↦ by rw [f.events_congr p.agrees_site_withoutRefused]
  have hrefused : (Event.diagnostics (Registry.empty.installEvents 0 p.decls)).filter
      (·.issue.topic ≠ .installing) = [] :=
    List.filter_eq_nil_iff.2 fun d hd ↦ by
      simpa using Registry.topic_installEvents _ _ _ d hd
  have hrest := p.keepTo_after_install entry
  rw [diagnostics_eq, hinstall, List.nil_append,
    p.agrees_registry_withoutRefused.entryEvents, globals_withoutRefused,
    diagnostics_eventsFrom hinstall, hfunctions, diagnostics_eq, List.filter_append, hrefused,
    List.nil_append]
  refine (List.filter_eq_self.2 fun d hd ↦ decide_eq_true ?_).symm
  intro htopic
  have hmem := hrest d hd
  rw [htopic] at hmem
  exact absurd hmem (by decide)

end Program

/-! ## Bodies

The state before a body, the step for one declaration and the steps for all of them. -/

/-- The state `c` is the one in which the body of a function with the signature `s` is checked,
after the log `log`, where `start` is the state outside of all functions. -/
structure FnDecl.Enters (f : FnDecl) (start : Checker) (s : Signature) (log : List Event)
    (c : Checker) : Prop where
  /-- One more scope is open.  If the names of the parameters are different, it binds each of them
  to its type in the signature. -/
  scopes : ∃ params : Scope, c.scopes.frames = params :: start.scopes.frames ∧
    ((f.params.map VarDecl.name).Nodup → ∀ (k : Nat) (v : VarDecl), f.params[k]? = some v →
      ∃ t, s.params[k]? = some t ∧ params.lookup v.name = some (.ofTy? t))
  registry : c.registry = start.registry
  entry : c.entry = start.entry
  function : c.function = some f.name
  loopDepth : c.loopDepth = 0
  /-- There is nothing but diagnostics about the function in the log, from outside of that scope and
  from inside. -/
  log : ∃ outer inner : List Event, (∀ e ∈ outer ++ inner, ∃ d, e = .reported d) ∧
    c.log.toList = log ++ .checkingFunction f.name f.position
      :: (outer ++ .enteredScope (start.scopes.depth + 1) :: inner)

/-- What a check does to declaration number `i` after the log `log`: the declaration and the log
that come of it.  The body of an installed function is checked against the type that its signature
has for the result, and a function that is not installed is left as it is. -/
inductive Decl.Step (start : Checker) (i : Nat) : Decl → Decl → List Event → List Event → Prop
  | global {v : VarDecl} {log : List Event} : Step start i (.global v) (.global v) log log
  | skipped {f : FnDecl} {log : List Event} (h : ¬ start.registry.isInstalled f.name i) :
      Step start i (.function f) (.function f) log (log ++ [.skippingFunction f.name f.position])
  | checked {f : FnDecl} {s : Signature} {log : List Event} {before after : Checker} {body : Block}
      {n : Nat} (hs : start.registry.get? f.name = some s) (hi : s.index = i)
      (hbefore : f.Enters start s log before)
      (hbody : (Check.block s.result? f.body).run before = .ok body after) :
      Step start i (.function f) (.function { f with body }) log
        (after.log.toList
          ++ [.exitingScope (start.scopes.depth + 1), .checkedFunction f.name n])

/-- The declarations are gone through one by one, in order and each once; the first has number
`i`. -/
inductive Decl.Steps (start : Checker) :
    Nat → List Decl → List Decl → List Event → List Event → Prop
  | nil {i : Nat} {log : List Event} : Steps start i [] [] log log
  | cons {i : Nat} {d d' : Decl} {ds ds' : List Decl} {log mid log' : List Event}
      (hd : d.Step start i d' log mid) (hds : Steps start (i + 1) ds ds' mid log') :
      Steps start i (d :: ds) (d' :: ds') log log'

namespace FnDecl

/-- A parameter is bound as the signature says, if no other one has its name. -/
theorem lookup_paramScope {f : FnDecl} (h : (f.params.map VarDecl.name).Nodup) {k : Nat}
    {v : VarDecl} (hv : f.params[k]? = some v) : f.paramScope.lookup v.name = some v.binding := by
  obtain ⟨hk, hget⟩ := List.getElem?_eq_some_iff.1 hv
  have hfind : f.params.find? (·.name = v.name) = some v := by
    rw [List.find?_eq_some_iff_getElem]
    refine ⟨decide_eq_true rfl, k, hk, hget, fun j hj ↦ ?_⟩
    have hne := List.pairwise_iff_getElem.1 h j k (by simpa using hj.trans hk)
      (by simpa using hk) hj
    simpa [hget] using hne
  rw [paramScope, Scope.lookup_declareAll, List.lookup_nil, Option.none_or, hfind,
    Option.map_some]

end FnDecl

/-- The state in which the body of a function is checked from the state `c`, after the log `log`. -/
def Checker.atBody (c : Checker) (f : FnDecl) (log : List Event) : Checker where
  scopes := c.scopes.push f.paramScope
  registry := c.registry
  entry := c.entry
  function := some f.name
  loopDepth := 0
  log := (log ++ .checkingFunction f.name f.position
    :: (reports (Rule.resultIssue? f.name f.returnType) f.position
      ++ .enteredScope (c.scopes.depth + 1) :: Scope.paramEvents f.name [] f.params)).toArray

namespace FnDecl

theorem enters_atBody (c : Checker) (f : FnDecl) (i : Nat) (log : List Event) :
    f.Enters c (.ofDecl f i) log (c.atBody f log) where
  scopes := by
    refine ⟨f.paramScope, rfl, fun hnodup k v hv ↦ ⟨_, ?_, lookup_paramScope hnodup hv⟩⟩
    rw [Signature.ofDecl, List.getElem?_map, hv, Option.map_some]
  registry := rfl
  entry := rfl
  function := rfl
  loopDepth := rfl
  log := ⟨_, _, fun _ he ↦ (List.mem_append.1 he).elim mem_reports (Scope.mem_paramEvents _ _), rfl⟩

/-- The log of the check of a function, from the state in which its body is checked. -/
theorem log_atBody (c : Checker) (f : FnDecl) (log : List Event) :
    log ++ f.events c.site
      = ((c.atBody f log).move (c.atBody f log).site
          (f.body.events (c.atBody f log).site (Ty.ofName? f.returnType))).log.toList
        ++ [.exitingScope (c.scopes.depth + 1),
          .checkedFunction f.name (Event.diagnostics (f.innerEvents c.site)).length] := by
  have hsite : (c.atBody f log).site = (c.site.inFunction f.name).push f.paramScope := rfl
  have hscopes : c.site.scopes = c.scopes := rfl
  rw [hsite]
  simp [hscopes, Checker.atBody, Checker.move, events, innerEvents, Site.inScope]

/-- The body of an installed function is checked in the state that its parameters leave. -/
theorem step_checked {c : Checker} {i : Nat} {f : FnDecl}
    (hf : c.registry.get? f.name = some (.ofDecl f i)) (log : List Event) :
    Decl.Step c i (.function f) (.function (f.annotate c.site.context)) log
      (log ++ f.events c.site) := by
  rw [log_atBody]
  exact .checked hf rfl (enters_atBody c f i log) (Check.block_apply _ f.body (c.atBody f log))

end FnDecl

namespace Decl

/-! ### The pass over all bodies

A step for one declaration, and then by induction the pass over all of them.  Every body starts from
the same state, as the check of a function leaves the scopes as it found them, and only the log
grows. -/

/-- The check of one declaration of a program. -/
theorem step_annotate {p : Program} {c : Checker} (hc : c.site = p.site) {i : Nat} {d : Decl}
    (hd : p.decls[i]? = some d) (log : List Event) :
    d.Step c i (d.annotate p.site.context i) log (log ++ d.events p.site i) := by
  have hregistry : c.registry = p.registry := congrArg Site.registry hc
  cases d with
  | global v =>
    rw [events, List.append_nil]
    exact .global
  | function f =>
    show Step c i _ (.function (if p.registry.isInstalled f.name i then _ else _)) log
      (log ++ if p.registry.isInstalled f.name i then _ else _)
    by_cases hf : p.registry.isInstalled f.name i
    -- an installed function is the first of its name, so the entry is its own
    · obtain ⟨hi, hget⟩ := List.getElem?_eq_some_iff.1 hd
      have hfirst := (Program.isInstalled_iff (i := ⟨i, hi⟩) hget).1 hf
      rw [if_pos hf, if_pos hf]
      rw [← hc]
      refine f.step_checked ?_ log
      rw [hregistry]
      exact Program.get?_registry_of_first hfirst.2 hget hfirst.1
    · rw [if_neg hf, if_neg hf]
      exact .skipped (hregistry ▸ hf)

/-- The last pass, from declaration number `i` on. -/
theorem steps_annotateFrom {p : Program} {c : Checker} (hc : c.site = p.site) (ds : List Decl) :
    ∀ (i : Nat) (log : List Event), p.decls.drop i = ds →
      Steps c i ds (annotateFrom p.site.context i ds) log (log ++ eventsFrom p.site i ds) := by
  induction ds with
  | nil =>
    intro i log _
    rw [eventsFrom, List.append_nil]
    exact .nil
  | cons d ds ih =>
    intro i log hdrop
    have hd : p.decls[i]? = some d := by
      rw [← Nat.add_zero i, ← List.getElem?_drop, hdrop]
      rfl
    have hds : p.decls.drop (i + 1) = ds := by
      rw [← List.drop_drop, hdrop]
      rfl
    rw [eventsFrom, ← List.append_assoc]
    exact .cons (step_annotate hc hd log) (ih (i + 1) _ hds)

end Decl

/-! ## The passes before the functions

The state in which the last pass starts, with a log that has no events of functions. -/

namespace Program

/-- The passes over the declarations of a program, before a check comes to the functions. -/
def declarationPasses (p : Program) : Check Unit := do
  Check.installFunctions p
  Check.entry
  Check.enterScope
  Check.installGlobals p

/-- The state that they leave. -/
def declared (p : Program) (entry : String) : Checker :=
  (Checker.start entry).move p.site
    (p.functionEvents ++ (p.registry.entryEvents entry ++ p.globalEvents))

theorem declarationPasses_start (p : Program) (entry : String) :
    p.declarationPasses (.start entry) = .ok () (p.declared entry) := by
  simp [declarationPasses, declared, installFunctions_start, Check.entry_apply,
    Check.installGlobals, Check.installGlobalsOf_move, globalEvents, site, globalScope]

theorem isOfFunction_declared (p : Program) (entry : String) :
    ∀ e ∈ (p.declared entry).log.toList, e.isOfFunction = false := by
  have hlog : (p.declared entry).log.toList
      = p.functionEvents ++ (p.registry.entryEvents entry ++ p.globalEvents) := by
    simp [declared, Checker.move, Checker.start]
  rw [hlog, functionEvents, globalEvents]
  simp only [List.forall_mem_append, List.forall_mem_cons]
  exact ⟨⟨Event.isOfFunction_installEvents _ _ _, rfl, List.forall_mem_nil _⟩,
    Event.isOfFunction_entryEvents _ _, rfl, Event.isOfFunction_globalEvents _ _, rfl,
    List.forall_mem_nil _⟩

theorem log_checked (p : Program) (entry : String) : (p.checked entry).log.toList
    = ((p.declared entry).log.toList ++ Decl.eventsFrom p.site 0 p.decls)
      ++ [.exitingScope 1, .finished (p.diagnostics entry).length] := by
  have hdiagnostics : Event.diagnostics (p.innerEvents entry) = p.diagnostics entry := by
    simp [diagnostics, events, Event.diagnostics_cons, Event.diagnostic?]
  rw [← hdiagnostics]
  simp [checked, declared, Checker.move, Checker.start, events, innerEvents, functionEvents,
    globalEvents]

/-! ## What becomes of every function

The result is a record of six facts, each of which was prepared above. -/

/-- What a check of `p` makes of its functions, where `q` is the program that it gives and `c` the
state after it. -/
structure Installs (p : Program) (entry : String) (q : Program) (c : Checker) : Prop where
  /-- The names of functions can be called, but for that of the function for output. -/
  named : ∀ x, c.registry.contains x ↔ x ≠ printName ∧ ∃ f, .function f ∈ p.decls ∧ f.name = x
  /-- A name stands for the first function with it. -/
  registered : ∀ x s, c.registry.get? x = some s ↔ x ≠ printName ∧
    ∃ (i : Fin p.decls.length) (f : FnDecl), p.decls.get i = .function f ∧ f.name = x ∧ p.First i ∧
      s = .ofDecl f i
  /-- Every other function is reported once, in order. -/
  refused : about .installing c.diagnostics = (p.refused c.registry).map FnDecl.refusal
  /-- Nothing else that is reported depends on such a function. -/
  silent : ∃ q' c', (p.withoutRefused c.registry).check entry = .ok (q', c') ∧
    c'.diagnostics = c.diagnostics.filter (·.issue.topic ≠ .installing)
  /-- It stays as it is. -/
  untouched : ∀ (i : Nat) (f : FnDecl), p.decls[i]? = some (.function f) →
    ¬ c.registry.isInstalled f.name i → q.decls[i]? = some (.function f)
  /-- The functions are gone through once, after the declarations, and what is installed is checked
  then. -/
  checked : ∃ (d : Checker) (globals : Scope) (log : List Event),
    p.declarationPasses.run (.start entry) = .ok () d ∧ d.registry = c.registry ∧
    d.scopes.frames = [globals] ∧ (∀ e ∈ d.log.toList, e.isOfFunction = false) ∧
    Decl.Steps d 0 p.decls q.decls d.log.toList log ∧
    c.log.toList = log ++ [.exitingScope 1, .finished c.diagnostics.length]

theorem contains_registry_iff {p : Program} {x : String} : p.registry.contains x ↔
    x ≠ printName ∧ ∃ f, .function f ∈ p.decls ∧ f.name = x := by
  rw [Registry.contains, Option.isSome_iff_exists]
  constructor
  · rintro ⟨s, hs⟩
    obtain ⟨i, f, -, hf, hname, hx, -⟩ := exists_first_of_get?_registry hs
    exact ⟨hx, f, hf ▸ List.get_mem _ i, hname⟩
  · rintro ⟨hx, f, hf, hname⟩
    rw [← Option.ne_none_iff_exists', ne_eq, registry, Registry.get?_declareFrom_eq_none_iff hx]
    exact fun h ↦ h _ hf (congrArg Sum.inl hname)

theorem get?_registry_eq_some_iff {p : Program} {x : String} {s : Signature} :
    p.registry.get? x = some s ↔ x ≠ printName ∧
      ∃ (i : Fin p.decls.length) (f : FnDecl), p.decls.get i = .function f ∧ f.name = x ∧
        p.First i ∧ s = .ofDecl f i := by
  constructor
  · intro hs
    obtain ⟨i, f, hi, hf, hname, hx, hsig⟩ := exists_first_of_get?_registry hs
    exact ⟨hx, i, f, hf, hname, hi, hsig⟩
  · rintro ⟨hx, i, f, hf, rfl, hi, rfl⟩
    exact get?_registry_of_first hi hf hx

theorem getElem?_annotate_of_refused {p : Program} {i : Nat} {f : FnDecl}
    (hf : p.decls[i]? = some (.function f)) (h : ¬ p.registry.isInstalled f.name i) :
    p.annotate.decls[i]? = some (.function f) := by
  have hregistry : p.site.context.registry = p.registry := rfl
  rw [annotate, Decl.getElem?_annotateFrom, Nat.zero_add, hf, Option.map_some, Decl.annotate,
    hregistry, if_neg h]

/-- **Every function is installed and checked once, or reported once and left alone.**  After the
check of a program, a name can be called if a function has it that is not the function for output,
and it stands for the first such function then.  Every other function is reported exactly once, in
order and at its position; it is left as it is, and no other diagnostic comes of it.  The last pass
goes through the declarations in order and checks the body of every installed function there, with
its parameters bound and its result expected as the signature says. -/
theorem check_installs (p : Program) (entry : String) :
    ∃ q c, p.check entry = .ok (q, c) ∧ p.Installs entry q c := by
  refine ⟨p.annotate, p.checked entry, p.check_eq entry, ?_⟩
  have hregistry : (p.checked entry).registry = p.registry := rfl
  constructor
  case named =>
    intro x
    rw [hregistry]
    exact contains_registry_iff
  case registered =>
    intro x s
    rw [hregistry]
    exact get?_registry_eq_some_iff
  case refused =>
    rw [hregistry, diagnostics_checked]
    exact p.about_installing entry
  case silent =>
    refine ⟨_, _, check_eq _ entry, ?_⟩
    rw [hregistry, diagnostics_checked, diagnostics_checked]
    exact p.diagnostics_withoutRefused entry
  case untouched => exact fun i f hf h ↦ getElem?_annotate_of_refused hf h
  case checked =>
    have hsteps := Decl.steps_annotateFrom (c := p.declared entry) rfl p.decls 0
      (p.declared entry).log.toList rfl
    refine ⟨p.declared entry, p.globalScope, _, p.declarationPasses_start entry, rfl, rfl,
      p.isOfFunction_declared entry, hsteps, ?_⟩
    rw [diagnostics_checked]
    exact p.log_checked entry

end Program

end Typewright
