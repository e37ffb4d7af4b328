import Typewright.Proofs.Isolation
import Typewright.Proofs.Reordering

/-!
# Where a check reports

The places of a tree are those where something can be reported: the places of the nodes of its
expressions, of its statements and of its declarations.  Two kinds of places are not among them.
Nothing is reported about an expression that was left out, and nothing about a block as a whole.

`Program.diagnostics_located` says that a check reports at the places of the program and nowhere
else, with one exception: where the entry function is missing, there is no place to name.

The lemmas are about any predicate `S` on places that holds of all places of a tree, and not about
membership in the list of them.  A list grows on the way from an expression to the program, so with
membership every step would have to carry the places of a part over to the whole.  With a predicate
the hypothesis about the whole is simply taken apart.
-/

set_option autoImplicit false

namespace Typewright

/-! ## The places of a tree

One list for each kind of tree, in the order of the text.  An expression that was left out has a
place in the tree as well, that of the token in front of which it is missing; but this is not one of
its tokens, and nothing is reported there. -/

/-- The places of the nodes of an expression, except of those that were left out. -/
def Expr.places (e : Expr) : List Position := (e.nodes.filter (!·.isAbsent)).map Expr.position

mutual
/-- The places of a statement: its own, and those of its parts. -/
def Stmt.places : Stmt → List Position
  | .block b => b.places
  | .cond p c a b => p :: (c.places ++ (a.places ++ b.places))
  | .whileLoop p c b => p :: (c.places ++ b.places)
  | .forLoop p i c s b => p :: (i.places ++ (c.places ++ (s.places ++ b.places)))
  | .ret p e => p :: e.places
  | .jump p _ => [p]
  | .expr e => e.places

/-- The places of a block: those of its variables and of its statements. -/
def Block.places : Block → List Position
  | ⟨_, vars, body⟩ => vars.map VarDecl.position ++ Stmt.placesAll body

/-- The places of statements in order. -/
def Stmt.placesAll : List Stmt → List Position
  | [] => []
  | s :: ss => s.places ++ Stmt.placesAll ss
end

theorem Stmt.placesAll_eq_flatMap (ss : List Stmt) : placesAll ss = ss.flatMap places := by
  induction ss with
  | nil => rfl
  | cons s ss ih => rw [placesAll, ih, List.flatMap_cons]

/-- The places of a function: its own, and those of its parameters and of its body. -/
def FnDecl.places (f : FnDecl) : List Position :=
  f.position :: (f.params.map VarDecl.position ++ f.body.places)

/-- The places of a declaration. -/
def Decl.places : Decl → List Position
  | .function f => f.places
  | .global v => [v.position]

/-- The places of a program. -/
def Program.places (p : Program) : List Position := p.decls.flatMap Decl.places

namespace Expr

section Places

variable (n : Note)

@[simp] theorem places_assign (x : String) (e : Expr) :
    (assign n x e).places = n.position :: e.places := rfl

@[simp] theorem places_binary (e : Expr) (op : BinaryOp) (f : Expr) :
    (binary n e op f).places = n.position :: (e.places ++ f.places) := by
  rw [places, nodes, List.filter_cons_of_pos rfl, List.filter_append, List.map_cons,
    List.map_append]
  rfl

@[simp] theorem places_unary (op : UnaryOp) (e : Expr) :
    (unary n op e).places = n.position :: e.places := rfl

@[simp] theorem places_call (f : String) (args : List Expr) :
    (call n f args).places = n.position :: args.flatMap places := by
  rw [places, nodes, List.filter_cons_of_pos rfl, nodesAll_eq_flatMap, List.filter_flatMap,
    List.map_cons, List.map_flatMap]
  rfl

@[simp] theorem places_actual (e : Expr) : (actual n e).places = n.position :: e.places := rfl

end Places

end Expr

/-! ## Diagnostics with a place

A diagnostic has a place or none.  `LocatedIn` asks for one, so it fails of a diagnostic without a
place, whatever `S` is. -/

/-- Every one of the diagnostics has a place, and it is among `S`. -/
def LocatedIn (S : Position → Prop) (ds : List Diagnostic) : Prop :=
  ∀ d ∈ ds, ∃ x, d.position = some x ∧ S x

variable {S : Position → Prop}

@[simp] theorem locatedIn_nil : LocatedIn S [] := List.forall_mem_nil _

@[simp] theorem locatedIn_append {ds es : List Diagnostic} :
    LocatedIn S (ds ++ es) ↔ LocatedIn S ds ∧ LocatedIn S es :=
  List.forall_mem_append

@[simp] theorem locatedIn_flatMap {α : Type} {as : List α} {f : α → List Diagnostic} :
    LocatedIn S (as.flatMap f) ↔ ∀ a ∈ as, LocatedIn S (f a) := by
  simp only [LocatedIn, List.forall_mem_flatMap]

/-- Issues that are reported at a place are located there. -/
theorem locatedIn_located {p : Position} (hp : S p) (is : List Issue) :
    LocatedIn S (is.map (.located · p)) := by
  rw [LocatedIn, List.forall_mem_map]
  exact fun _ _ ↦ ⟨p, rfl, hp⟩

/-! ## Expressions

A node reports at its own place.  One that was left out has no issue, which is why its place need
not be among `S`. -/

namespace Expr

theorem places_subset_of_mem_visited {Γ : Context} {e f : Expr} (hf : f ∈ e.visited Γ) :
    f.places ⊆ e.places :=
  List.map_subset _ (List.filter_subset _ (nodes_subset_of_mem_parts (visited_subset_parts _ hf)))

/-- A node has the place of its note, if it was not left out. -/
theorem position_mem_places {e : Expr} (h : ¬ e.isAbsent) : e.position ∈ e.places :=
  List.mem_map_of_mem (List.mem_filter.2 ⟨e.mem_nodes_self, by simpa using h⟩)

/-- Nothing is reported about a node that was left out. -/
theorem issues_ruling_of_isAbsent {e : Expr} (h : e.isAbsent) (Γ : Context) :
    (e.ruling Γ).issues = [] := by
  cases e with
  | absent n => rfl
  | _ => cases h

/-- An expression is reported about at its places. -/
theorem locatedIn_check (Γ : Context) (e : Expr) :
    (∀ x ∈ e.places, S x) → LocatedIn S (e.check Γ).diagnostics := by
  induction e using induct_visited Γ with
  | node e ih =>
    intro h
    rw [diagnostics_check, locatedIn_append, locatedIn_flatMap]
    refine ⟨fun f hf ↦ ih f hf fun x hx ↦ h x (places_subset_of_mem_visited hf hx), ?_⟩
    by_cases habsent : e.isAbsent
    · rw [issues_ruling_of_isAbsent habsent]
      exact locatedIn_nil
    · exact locatedIn_located (h _ (position_mem_places habsent)) _

theorem locatedIn_predicate {Γ : Context} {statement : String} {p : Position} {e : Expr} (hp : S p)
    (he : ∀ x ∈ e.places, S x) :
    LocatedIn S (Event.diagnostics (e.predicateEvents Γ statement p)) := by
  rw [diagnostics_predicateEvents, locatedIn_append]
  exact ⟨e.locatedIn_check Γ he, locatedIn_located hp _⟩

theorem locatedIn_loopCondition {Γ : Context} {p : Position} {e : Expr} (hp : S p)
    (he : ∀ x ∈ e.places, S x) : LocatedIn S (Event.diagnostics (e.loopConditionEvents Γ p)) := by
  unfold loopConditionEvents
  split
  · exact e.locatedIn_check Γ he
  · exact locatedIn_predicate hp he

theorem locatedIn_return {σ : Site} {ret : Option Ty} {p : Position} {e : Expr} (hp : S p)
    (he : ∀ x ∈ e.places, S x) : LocatedIn S (Event.diagnostics (e.returnEvents σ ret p)) := by
  rw [diagnostics_returnEvents, locatedIn_append]
  exact ⟨e.locatedIn_check σ.context he, locatedIn_located hp _⟩

end Expr

/-! ## Declarations and statements

A declaration is reported about at its place, by all three loops, and a statement at its own place
or at those of its parts. -/

theorem VarDecl.locatedIn_loopDiagnostics {skips taken : Bool} {void duplicate : Issue}
    {v : VarDecl} (hv : S v.position) :
    LocatedIn S (v.loopDiagnostics skips taken void duplicate) := by
  rw [loopDiagnostics, locatedIn_append]
  constructor
  · split
    · exact locatedIn_nil
    · exact locatedIn_located hv _
  · split
    · exact locatedIn_located hv [duplicate]
    · exact locatedIn_nil

/-- The declarations of a loop are reported about at their places. -/
theorem Scope.Loop.locatedIn_events {skips : Bool} {void duplicate : VarDecl → Issue}
    {events : Scope → List VarDecl → List Event} (h : Loop skips void duplicate events)
    (vs : List VarDecl) : ∀ f : Scope, (∀ x ∈ vs.map VarDecl.position, S x) →
      LocatedIn S (Event.diagnostics (events f vs)) := by
  induction vs with
  | nil =>
    intro f _
    rw [h.nil]
    exact locatedIn_nil
  | cons v vs ih =>
    intro f hvs
    rw [List.map_cons, List.forall_mem_cons] at hvs
    rw [h.cons, locatedIn_append]
    exact ⟨v.locatedIn_loopDiagnostics hvs.1, ih _ hvs.2⟩

namespace Stmt

/-- **A statement is reported about at its places**, and so is a block. -/
theorem locatedIn_events (ret : Option Ty) :
    (∀ (s : Stmt) (σ : Site), (∀ x ∈ s.places, S x) →
      LocatedIn S (Event.diagnostics (s.events σ ret))) ∧
    ∀ (b : Block) (σ : Site), (∀ x ∈ b.places, S x) →
      LocatedIn S (Event.diagnostics (b.events σ ret)) := by
  refine Stmt.induct ?block ?cond ?whileLoop ?forLoop ?ret ?jump ?expr ?body
  case block =>
    intro b ih σ h
    rw [diagnostics_block]
    exact ih σ h
  case cond =>
    intro p c a b iha ihb σ h
    rw [places, List.forall_mem_cons, List.forall_mem_append, List.forall_mem_append] at h
    rw [diagnostics_cond, locatedIn_append, locatedIn_append]
    exact ⟨Expr.locatedIn_predicate h.1 h.2.1, iha _ h.2.2.1, ihb _ h.2.2.2⟩
  case whileLoop =>
    intro p c b ih σ h
    rw [places, List.forall_mem_cons, List.forall_mem_append] at h
    rw [diagnostics_whileLoop, locatedIn_append]
    exact ⟨Expr.locatedIn_predicate h.1 h.2.1, ih _ h.2.2⟩
  case forLoop =>
    intro p i c s b ih σ h
    rw [places, List.forall_mem_cons, List.forall_mem_append, List.forall_mem_append,
      List.forall_mem_append] at h
    obtain ⟨hp, hi, hc, hs, hb⟩ := h
    rw [diagnostics_forLoop, locatedIn_append, locatedIn_append, locatedIn_append]
    exact ⟨i.locatedIn_check _ hi, Expr.locatedIn_loopCondition hp hc, s.locatedIn_check _ hs,
      ih _ hb⟩
  case ret =>
    intro p e σ h
    rw [places, List.forall_mem_cons] at h
    rw [diagnostics_ret]
    exact Expr.locatedIn_return h.1 h.2
  case jump =>
    intro p j σ h
    rw [places, List.forall_mem_singleton] at h
    rw [diagnostics_jump]
    exact locatedIn_located h _
  case expr =>
    intro e σ h
    rw [diagnostics_expr]
    exact e.locatedIn_check _ h
  case body =>
    intro p vars ss ih σ h
    rw [Block.places, List.forall_mem_append, placesAll_eq_flatMap, List.forall_mem_flatMap] at h
    rw [Block.diagnostics_mk, locatedIn_append, locatedIn_flatMap]
    exact ⟨Scope.loop_locals.locatedIn_events vars [] h.1, fun s hs ↦ ih s hs _ (h.2 s hs)⟩

end Stmt

/-! ## Programs

The passes of a check in turn.  What is reported about the entry function has the place from its
signature, and this is the place of an installed function. -/

/-- A function is reported about at its places. -/
theorem FnDecl.locatedIn_events {σ : Site} {f : FnDecl} (h : ∀ x ∈ f.places, S x) :
    LocatedIn S (Event.diagnostics (f.events σ)) := by
  rw [places, List.forall_mem_cons, List.forall_mem_append] at h
  rw [diagnostics_events, locatedIn_append, locatedIn_append]
  exact ⟨locatedIn_located h.1 _, (Scope.loop_params _).locatedIn_events _ _ h.2.1,
    (Stmt.locatedIn_events _).2 _ _ h.2.2⟩

/-- The functions that are installed among declarations are reported about at their places. -/
theorem Decl.locatedIn_eventsFrom {σ : Site} {ds : List Decl}
    (h : ∀ d ∈ ds, ∀ x ∈ d.places, S x) :
    LocatedIn S (Event.diagnostics (Decl.eventsFrom σ 0 ds)) := by
  rw [diagnostics_eventsFrom_eq_flatMap, locatedIn_flatMap]
  rintro ⟨d, i⟩ hd
  have hplaces := h d (List.fst_mem_of_mem_zipIdx hd)
  cases d with
  | global v => exact locatedIn_nil
  | function f =>
    rw [Decl.diagnostics_events, locatedIn_flatMap]
    intro g hg
    obtain rfl : f = g := by
      rw [Option.mem_toList, installed?, Option.filter_eq_some_iff] at hg
      exact Option.some.inj hg.1
    exact FnDecl.locatedIn_events hplaces

namespace Registry

/-- Functions that cannot be installed are reported about at their places. -/
theorem locatedIn_installEvents (ds : List Decl) : ∀ (r : Registry) (i : Nat),
    (∀ d ∈ ds, ∀ x ∈ d.places, S x) →
      LocatedIn S (Event.diagnostics (r.installEvents i ds)) := by
  induction ds with
  | nil => exact fun _ _ _ ↦ locatedIn_nil
  | cons d ds ih =>
    intro r i h
    rw [List.forall_mem_cons] at h
    cases d with
    | global v => exact ih r (i + 1) h.2
    | function f =>
      have hposition : S f.position := h.1 _ List.mem_cons_self
      rw [installEvents, Event.diagnostics_cons, Event.diagnostics_append, diagnostics_reports]
      exact locatedIn_append.2 ⟨locatedIn_nil,
        locatedIn_append.2 ⟨locatedIn_located hposition _, ih _ _ h.2⟩⟩

/-- The entry function is reported about at its place, which its signature has. -/
theorem locatedIn_entryEvents {r : Registry} {entry : String} {s : Signature}
    (hs : r.get? entry = some s) (h : S s.position) :
    LocatedIn S (Event.diagnostics (r.entryEvents entry)) := by
  simp only [entryEvents, hs, Event.diagnostics_append, diagnostics_reports, locatedIn_append]
  exact ⟨locatedIn_located h _, locatedIn_located h _⟩

/-- A missing entry function is reported without a place. -/
theorem diagnostics_entryEvents_of_none {r : Registry} {entry : String}
    (h : r.get? entry = none) :
    Event.diagnostics (r.entryEvents entry) = [⟨.missingEntry entry, none⟩] := by
  simp only [entryEvents, h]
  rfl

end Registry

namespace Program

/-- The installed functions are the first ones of their names, but for that of the function for
output. -/
theorem mem_installed_iff {p : Program} {f : FnDecl} : f ∈ p.installed p.registry ↔
    ∃ i : Fin p.decls.length, p.decls.get i = .function f ∧ f.name ≠ printName ∧ p.First i := by
  rw [installed, List.mem_filterMap]
  constructor
  · rintro ⟨⟨d, i⟩, hd, hf⟩
    obtain ⟨hi, hget⟩ := List.getElem?_eq_some_iff.1 (List.mem_zipIdx_iff_getElem?.1 hd)
    rw [Decl.installed?, Option.filter_eq_some_iff] at hf
    cases d with
    | global v => cases hf.1
    | function g =>
      cases hf.1
      exact ⟨⟨i, hi⟩, hget, (isInstalled_iff (i := ⟨i, hi⟩) hget).1 hf.2⟩
  · rintro ⟨i, hget, hi⟩
    refine ⟨(p.decls.get i, i.1), List.mem_zipIdx_iff_getElem?.2 (by simp), ?_⟩
    rw [Decl.installed?, Option.filter_eq_some_iff, hget]
    exact ⟨rfl, (isInstalled_iff hget).2 hi⟩

/-- An installed function is found by its name, and what is found is an installed function. -/
theorem get?_registry_eq_none_iff {p : Program} {x : String} :
    p.registry.get? x = none ↔ ∀ f ∈ p.installed p.registry, f.name ≠ x := by
  constructor
  · rintro h f hf rfl
    obtain ⟨i, hget, hname, hi⟩ := mem_installed_iff.1 hf
    rw [get?_registry_of_first hi hget hname] at h
    cases h
  · intro h
    by_contra hne
    obtain ⟨s, hs⟩ := Option.ne_none_iff_exists'.1 hne
    obtain ⟨i, f, hi, hget, hname, hprint, -⟩ := exists_first_of_get?_registry hs
    exact h f (mem_installed_iff.2 ⟨i, hget, hname ▸ hprint, hi⟩) hname

/-- What is reported if no function with the name of the entry is installed. -/
def entryMissing (p : Program) (entry : String) : List Diagnostic :=
  if ∀ f ∈ p.installed p.registry, f.name ≠ entry then [⟨.missingEntry entry, none⟩] else []

/-- **A check reports at the places of the program**, apart from a missing entry function. -/
theorem diagnostics_located (p : Program) (entry : String) (h : ∀ x ∈ p.places, S x) :
    ∃ ds es, p.diagnostics entry = ds ++ (p.entryMissing entry ++ es) ∧
      LocatedIn S ds ∧ LocatedIn S es := by
  rw [places, List.forall_mem_flatMap] at h
  have hinstall := Registry.locatedIn_installEvents p.decls .empty 0 h
  have hglobals : LocatedIn S (Event.diagnostics (Scope.globalEvents [] p.globals)) := by
    refine Scope.loop_globals.locatedIn_events p.globals [] (List.forall_mem_map.2 fun v hv ↦ ?_)
    obtain ⟨d, hd, hv⟩ := List.mem_filterMap.1 hv
    cases d with
    | function f => cases hv
    | global w =>
      cases hv
      exact h _ hd _ (List.mem_singleton.2 rfl)
  have hfunctions : LocatedIn S (Event.diagnostics (Decl.eventsFrom p.site 0 p.decls)) :=
    Decl.locatedIn_eventsFrom h
  rw [diagnostics_eq, entryMissing]
  cases hs : p.registry.get? entry with
  -- the one diagnostic without a place: no function has the name of the entry
  | none =>
    rw [Registry.diagnostics_entryEvents_of_none hs, if_pos (get?_registry_eq_none_iff.1 hs)]
    exact ⟨_, _, rfl, hinstall, locatedIn_append.2 ⟨hglobals, hfunctions⟩⟩
  | some s =>
    obtain ⟨i, f, -, hget, -, -, rfl⟩ := exists_first_of_get?_registry hs
    -- an entry function of the wrong form is reported at its own place
    have hf : S f.position := h _ (List.get_mem _ i) _ (hget ▸ List.mem_cons_self)
    have hentry := Registry.locatedIn_entryEvents hs hf
    have hinstalled : ¬ ∀ g ∈ p.installed p.registry, g.name ≠ entry := fun hnone ↦
      Option.some_ne_none _ (hs.symm.trans (get?_registry_eq_none_iff.2 hnone))
    rw [if_neg hinstalled]
    exact ⟨_, _, rfl, hinstall, locatedIn_append.2 ⟨hentry, locatedIn_append.2
      ⟨hglobals, hfunctions⟩⟩⟩

end Program

end Typewright
