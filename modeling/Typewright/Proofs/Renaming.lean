import Mathlib.Data.List.Find
import Mathlib.Data.List.Nodup
import Mathlib.Logic.Equiv.Basic
import Typewright.Proofs.Isolation
import Typewright.Proofs.Relabeling

/-!
# Renaming

A `Renaming` gives every name a new one, different names different ones, and keeps the names that
the language knows.  Applied to all names of a program it changes nothing but names: the check of
the renamed program reports the same diagnostics with the new names in them, and writes the same
types.  This is `Program.check_rename`.

What is reported is a matter of `Relabeling`.  What is written is followed through the tree here:
the types on it are those that the checks of its parts come to, and the names on it are not touched
by a check.  No other name is special then, not even that of the entry function, as long as the
check is asked for it under its new name.

Nor has a check any use for an order of names.  All that it asks of a table is what one name stands
for, and no table has two entries for a name (`Program.distinct_site`), so the entries can stand in
any order: `Program.alone_declsFrom_of_shuffles`.  This is a different matter from the order of
declarations.  There the program is another one and its diagnostics come in another order; here the
program is the same and only the layout of the tables is not.
-/

set_option autoImplicit false

namespace Typewright

/-- New names.  The names of the types and of the function for output are kept. -/
structure Renaming where
  name : String → String
  injective : Function.Injective name
  ty : ∀ t : Ty, name t.name = t.name
  print : name printName = printName

namespace Renaming

/-- The renaming of all names on a tree. -/
def relabel (r : Renaming) : Relabel := { name := r.name }

/-- A check cannot tell the new names from the old ones. -/
theorem faithful (r : Renaming) : r.relabel.Faithful where
  note := fun _ ↦ rfl
  position := fun _ ↦ rfl
  injective := r.injective
  ty := r.ty
  print := r.print

/-- The language knows the name. -/
def IsKnown (x : String) : Prop := x = printName ∨ (Ty.ofName? x).isSome

instance : DecidablePred IsKnown :=
  fun x ↦ inferInstanceAs (Decidable (x = printName ∨ (Ty.ofName? x).isSome))

/-- The names of types are known. -/
theorem isKnown_name (t : Ty) : IsKnown t.name := .inr (t.ofName?_name ▸ rfl)

/-- The renaming that swaps two names. -/
def swap {x y : String} (hx : ¬ IsKnown x) (hy : ¬ IsKnown y) : Renaming where
  name := Equiv.swap x y
  injective := (Equiv.swap x y).injective
  ty := fun t ↦ Equiv.swap_apply_of_ne_of_ne (fun heq ↦ hx (heq ▸ isKnown_name t))
    fun heq ↦ hy (heq ▸ isKnown_name t)
  print := Equiv.swap_apply_of_ne_of_ne (fun heq ↦ hx (.inl heq.symm))
    fun heq ↦ hy (.inl heq.symm)

end Renaming

variable (r : Renaming)

/-! ## What is written

The types on the renamed tree, from the types of the relabelled one.  A value that is not visited
keeps its types in both. -/

/-- **The same types are written on a renamed expression.**  The log is known from the relabelling,
but what is written is not: an assignment to an unknown name leaves its value as it was, with the
types that were on it. -/
theorem Expr.expr_check_rename (Γ : Context) (e : Expr) :
    ((e.relabel r.relabel).check (Γ.rename r.name)).expr
      = (e.check Γ).expr.relabel r.relabel := by
  have hlookup : ∀ x, (Γ.rename r.name).scopes.lookup (r.relabel.name x) = Γ.scopes.lookup x :=
    fun x ↦ Γ.scopes.lookup_rename r.injective x
  have hty : ∀ e : Expr, ((e.relabel r.relabel).check (Γ.rename r.name)).ty = (e.check Γ).ty :=
    fun e ↦ e.ty_relabel r.faithful Γ
  induction e with
  | int | float | string | bool | absent => rfl
  | var n x =>
    exact congrArg (fun t ↦ var { n with ty := some (t.getD .void) } (r.name x)) (hty (var n x))
  | assign n x e ih =>
    cases hx : Γ.scopes.lookup x with
    | none =>
      -- the value is not visited, and the types that were on it stay
      simp only [relabel, check, Checked.node, hlookup, hx]
      rfl
    | some b =>
      simp only [relabel, check, Checked.node, hlookup, hx, hty, ih]
      rfl
  | binary n e op f ihe ihf =>
    simp only [relabel, check, Checked.node, hty, ihe, ihf]
    rfl
  | unary n op e ih =>
    simp only [relabel, check, Checked.node, hty, ih]
    rfl
  | call n f args ih =>
    have hcall := hty (call n f args)
    have hargs : (checkAll (Γ.rename r.name) (relabelAll r.relabel args)).map (·.expr)
        = relabelAll r.relabel ((checkAll Γ args).map (·.expr)) := by
      rw [relabelAll_eq_map, relabelAll_eq_map, checkAll_eq_map, checkAll_eq_map, List.map_map,
        List.map_map, List.map_map, List.map_map]
      exact List.map_congr_left ih
    rw [relabel, check, check] at hcall
    rw [relabel, check, check, Checked.node, Checked.node, relabel, hargs]
    exact congrArg (fun t ↦ call { n with ty := some (t.getD .void) } (r.name f) _) hcall
  | actual n e ih =>
    simp only [relabel, check, Checked.node, hty, ih]
    rfl

/-- The same types are written on a renamed statement, and so for a block. -/
theorem Stmt.annotate_rename :
    (∀ (s : Stmt) (Γ : Context),
      (s.relabel r.relabel).annotate (Γ.rename r.name) = (s.annotate Γ).relabel r.relabel) ∧
    ∀ (b : Block) (Γ : Context),
      (b.relabel r.relabel).annotate (Γ.rename r.name) = (b.annotate Γ).relabel r.relabel := by
  have hexpr := Expr.expr_check_rename r
  refine Stmt.induct ?block ?cond ?whileLoop ?forLoop ?ret ?jump ?expr ?body
  case block =>
    intro b ih Γ
    rw [relabel, annotate, annotate, relabel, ih]
  case cond =>
    intro p c a b iha ihb Γ
    rw [relabel, annotate, annotate, relabel, hexpr, ← iha, ← ihb]
    rfl
  case whileLoop =>
    intro p c b ih Γ
    rw [relabel, annotate, annotate, relabel, hexpr, ih]
  case forLoop =>
    intro p i c s b ih Γ
    rw [relabel, annotate, annotate, relabel, hexpr, hexpr, hexpr, ih]
  case ret =>
    intro p e Γ
    rw [relabel, annotate, annotate, relabel, hexpr]
  case jump =>
    intro p j Γ
    rfl
  case expr =>
    intro e Γ
    rw [relabel, annotate, annotate, relabel, hexpr]
  case body =>
    intro p vars ss ih Γ
    have hscope : (Γ.rename r.name).push
          (Scope.declareAll [] (vars.map (VarDecl.relabel r.relabel)))
        = (Γ.push (Scope.declareAll [] vars)).rename r.name :=
      congrArg (Γ.rename r.name).push (Scope.declareAll_relabel r.faithful vars [])
    rw [Block.relabel, Block.annotate, Block.annotate, Block.relabel, hscope, relabelAll_eq_map,
      relabelAll_eq_map, annotateAll_eq_map, annotateAll_eq_map, List.map_map, List.map_map]
    exact congrArg (Block.mk p _) (List.map_congr_left fun s hs ↦ ih s hs _)

theorem FnDecl.annotate_rename (Γ : Context) (f : FnDecl) :
    (f.relabel r.relabel).annotate (Γ.rename r.name) = (f.annotate Γ).relabel r.relabel := by
  have hscope : (Γ.rename r.name).push (f.relabel r.relabel).paramScope
      = (Γ.push f.paramScope).rename r.name :=
    congrArg (Γ.rename r.name).push (f.paramScope_relabel r.faithful)
  rw [annotate, annotate, hscope]
  exact congrArg (fun body ↦ { f.relabel r.relabel with body })
    ((Stmt.annotate_rename r).2 f.body _)

namespace Decl

theorem annotate_rename (Γ : Context) (i : Nat) (d : Decl) :
    (d.relabel r.relabel).annotate (Γ.rename r.name) i = (d.annotate Γ i).relabel r.relabel := by
  cases d with
  | global v => rfl
  | function f =>
    have hinstalled : (Γ.rename r.name).registry.isInstalled (f.relabel r.relabel).name i
        = Γ.registry.isInstalled f.name i :=
      Γ.registry.isInstalled_rename r.injective f.name i
    rw [relabel, annotate, annotate, relabel, hinstalled, f.annotate_rename,
      ← apply_ite (FnDecl.relabel _)]

/-- The declarations one by one; their numbers are not changed. -/
theorem annotateFrom_rename (Γ : Context) (ds : List Decl) : ∀ i : Nat,
    annotateFrom (Γ.rename r.name) i (ds.map (relabel r.relabel))
      = (annotateFrom Γ i ds).map (relabel r.relabel) := by
  induction ds with
  | nil => exact fun _ ↦ rfl
  | cons d ds ih =>
    intro i
    rw [List.map_cons, annotateFrom, annotateFrom, List.map_cons, d.annotate_rename, ih]

end Decl

/-- The tree that a check gives for a renamed program is the renamed tree. -/
theorem Program.annotate_rename (p : Program) :
    (p.relabel r.relabel).annotate = p.annotate.relabel r.relabel := by
  rw [annotate, p.site_relabel r.faithful, annotate]
  exact congrArg Program.mk (Decl.annotateFrom_rename r p.site.context p.decls 0)

/-! ## The order of entries

A lookup takes the first entry with the name.  If there is only one, it does not matter where it
stands. -/

/-- In a scope that binds no name twice, the order of the entries does not matter.  A lookup takes
the first entry of a name, and there is only one. -/
theorem Scope.lookup_perm {s t : Scope} (h : s.Perm t) (hs : (s.map Prod.fst).Nodup) (x : String) :
    t.lookup x = s.lookup x := by
  induction h with
  | nil => rfl
  | cons b _ ih => rw [List.lookup_cons, List.lookup_cons, ih (List.nodup_cons.1 hs).2]
  | swap a b s =>
    obtain ⟨y, a⟩ := a
    obtain ⟨z, b⟩ := b
    -- the two entries are for different names, so at most one of them is found
    have hne : z ≠ y := fun heq ↦ (List.nodup_cons.1 hs).1 (heq ▸ List.mem_cons_self)
    rw [List.lookup_cons, List.lookup_cons, List.lookup_cons, List.lookup_cons]
    by_cases hy : x = y
    · have hz : (x == z) = false := beq_eq_false_iff_ne.2 fun heq ↦ hne (heq.symm.trans hy)
      rw [hz]
    · rw [beq_eq_false_iff_ne.2 hy]
  | trans h₁ _ ih₁ ih₂ => exact (ih₂ ((h₁.map Prod.fst).nodup_iff.1 hs)).trans (ih₁ hs)

/-- In a stack of scopes, each can have its entries in another order. -/
theorem Scopes.lookup_perm {fs gs : List Scope} (h : List.Forall₂ List.Perm fs gs)
    (hfs : ∀ f ∈ fs, (f.map Prod.fst).Nodup) (x : String) :
    (Scopes.mk gs).lookup x = (Scopes.mk fs).lookup x := by
  rw [lookup, lookup]
  induction h with
  | nil => rfl
  | cons hperm _ ih =>
    rw [List.findSome?_cons, List.findSome?_cons,
      Scope.lookup_perm hperm (hfs _ List.mem_cons_self),
      ih fun f hf ↦ hfs f (List.mem_cons_of_mem _ hf)]

/-- In a registry that has no name twice, the order of the signatures does not matter. -/
theorem Registry.get?_perm {g g' : Registry} (h : g.signatures.Perm g'.signatures)
    (hg : (g.signatures.map Signature.name).Nodup) (x : String) : g'.get? x = g.get? x := by
  refine (List.find?_eq_find?_of_perm h ?_).symm
  rintro s ⟨hs, hsx⟩ t ⟨ht, htx⟩
  have hname : s.name = t.name := (of_decide_eq_true hsx).trans (of_decide_eq_true htx).symm
  exact List.inj_on_of_nodup_map hg hs ht hname

/-- The tables of the sites have the same entries, in any order. -/
structure Site.Shuffles (σ τ : Site) : Prop where
  registry : σ.registry.signatures.Perm τ.registry.signatures
  scopes : List.Forall₂ List.Perm σ.scopes.frames τ.scopes.frames
  function : τ.function = σ.function
  loops : τ.loops = σ.loops

/-- No table of the site has two entries for a name. -/
structure Site.Distinct (σ : Site) : Prop where
  registry : (σ.registry.signatures.map Signature.name).Nodup
  scopes : ∀ s ∈ σ.scopes.frames, (s.map Prod.fst).Nodup

namespace Site.Shuffles

variable {σ τ : Site}

theorem get? (h : σ.Shuffles τ) (hσ : σ.Distinct) (x : String) :
    τ.registry.get? x = σ.registry.get? x :=
  Registry.get?_perm h.registry hσ.registry x

/-- Sites that differ in the order of entries agree. -/
theorem agrees (h : σ.Shuffles τ) (hσ : σ.Distinct) : σ.Agrees τ where
  context := ⟨Scopes.lookup_perm h.scopes hσ.scopes, fun f ↦ congrArg (Option.map _) (h.get? hσ f)⟩
  depth := h.scopes.length_eq.symm
  function := h.function
  loops := h.loops

end Site.Shuffles

namespace Decl

variable {σ τ : Site} (h : σ.Shuffles τ) (hσ : σ.Distinct)

include h hσ

theorem annotate_shuffle (i : Nat) (d : Decl) :
    d.annotate τ.context i = d.annotate σ.context i := by
  cases d with
  | global v => rfl
  | function f =>
    have hinstalled : τ.context.registry.isInstalled f.name i
        = σ.context.registry.isInstalled f.name i :=
      congrArg (Option.any _) (h.get? hσ f.name)
    rw [annotate, annotate, hinstalled, f.annotate_congr (h.agrees hσ).context]

/-- A function is checked alike at sites that agree, and it is installed under the same number. -/
theorem events_shuffle (i : Nat) (d : Decl) : d.events τ i = d.events σ i := by
  cases d with
  | global v => rfl
  | function f =>
    have hinstalled : τ.registry.isInstalled f.name i = σ.registry.isInstalled f.name i :=
      congrArg (Option.any _) (h.get? hσ f.name)
    rw [events, events, hinstalled, f.events_congr (h.agrees hσ)]

/-- Declarations are checked alike, in whatever order the tables have their entries. -/
theorem checksFrom_shuffle (ds : List Decl) : ∀ i : Nat,
    annotateFrom τ.context i ds = annotateFrom σ.context i ds ∧
      eventsFrom τ i ds = eventsFrom σ i ds := by
  induction ds with
  | nil => exact fun _ ↦ ⟨rfl, rfl⟩
  | cons d ds ih =>
    intro i
    obtain ⟨hds, hevents⟩ := ih (i + 1)
    rw [annotateFrom, annotateFrom, eventsFrom, eventsFrom, d.annotate_shuffle h hσ,
      d.events_shuffle h hσ, hds, hevents]
    exact ⟨rfl, rfl⟩

end Decl

/-! ### Entries with different names

The tables of a check never hold a name twice, because a name that is taken is not entered again. -/

namespace Registry

theorem nodup_install {g : Registry} (hg : (g.signatures.map Signature.name).Nodup)
    (s : Signature) : ((g.install s).signatures.map Signature.name).Nodup := by
  have hold : ((g.signatures.filter (·.name ≠ s.name)).map Signature.name).Nodup :=
    hg.sublist (List.filter_sublist.map _)
  rw [install, List.map_append, List.map_singleton, ← List.concat_eq_append, List.nodup_concat]
  refine ⟨?_, hold⟩
  intro hmem
  obtain ⟨t, ht, hname⟩ := List.mem_map.1 hmem
  exact of_decide_eq_true (List.mem_filter.1 ht).2 hname

theorem nodup_declareFrom (ds : List Decl) : ∀ {g : Registry} (i : Nat),
    (g.signatures.map Signature.name).Nodup →
      ((g.declareFrom i ds).signatures.map Signature.name).Nodup := by
  induction ds with
  | nil => exact fun _ hg ↦ hg
  | cons d ds ih =>
    intro g i hg
    cases d with
    | global v => exact ih (i + 1) hg
    | function f =>
      refine ih (i + 1) ?_
      rw [declare]
      split
      · exact nodup_install hg _
      · exact hg

end Registry

/-- A scope does not bind a name again. -/
theorem Scope.nodup_declareAll (vs : List VarDecl) : ∀ {s : Scope}, (s.map Prod.fst).Nodup →
    ((s.declareAll vs).map Prod.fst).Nodup := by
  induction vs with
  | nil => exact fun hs ↦ hs
  | cons v vs ih =>
    intro s hs
    refine ih ?_
    rw [declare]
    split
    · exact hs
    next hv =>
      rw [List.map_cons, List.nodup_cons]
      refine ⟨fun hmem ↦ ?_, hs⟩
      obtain ⟨b, hb, hname⟩ := List.mem_map.1 hmem
      have hfree := List.lookup_eq_none_iff.1 (Option.not_isSome_iff_eq_none.1 hv) b hb
      simp [hname] at hfree

namespace Program

/-- No table has two entries for a name where the functions of a program are checked. -/
theorem distinct_site (p : Program) : p.site.Distinct where
  registry := Registry.nodup_declareFrom p.decls 0 List.nodup_nil
  scopes := by
    intro s hs
    obtain rfl := List.mem_singleton.1 hs
    exact Scope.nodup_declareAll p.globals List.nodup_nil

/-- The declarations of a program are checked alike, in whatever order the tables have their
entries. -/
theorem alone_declsFrom_of_shuffles (p : Program) {c : Checker} (h : p.site.Shuffles c.site) :
    Check.Alone (Check.declsFrom 0 p.decls) c p.annotate.decls
      (Event.diagnostics (Decl.eventsFrom p.site 0 p.decls)) := by
  obtain ⟨hdecls, hevents⟩ := Decl.checksFrom_shuffle h p.distinct_site p.decls 0
  have halone : Check.Alone (Check.declsFrom 0 p.decls) c
      (Decl.annotateFrom c.site.context 0 p.decls)
      (Event.diagnostics (Decl.eventsFrom c.site 0 p.decls)) :=
    Check.alone_of_move (Check.declsFrom_apply p.decls 0 c.unlogged)
  rwa [hdecls, hevents] at halone

/-! ## Programs

Both facts together, and a program in which the name of the entry function is traded for that of a
variable. -/

/-- **Names do not matter, as long as they are told apart.**  With new names for all names of a
program, its entry function included, the check gives the same program with the new names: the types
on it are the same.  It reports the same at the same places in the same order, with the new names,
and registers the same functions.

Nor does it matter how the tables are laid out.  Where the declarations are checked, each table can
have its entries in any order: the same declarations come out, and the same is reported. -/
theorem check_rename (r : Renaming) (p : Program) (entry : String) :
    ∃ q c c', p.check entry = .ok (q, c) ∧
      (p.relabel r.relabel).check (r.name entry) = .ok (q.relabel r.relabel, c') ∧
      c'.diagnostics = c.diagnostics.map (Diagnostic.rename r.name) ∧
      c'.registry = c.registry.rename r.name ∧
      ∃ before after, c.diagnostics = before ++ after ∧
        ∀ d : Checker, p.site.Shuffles d.site →
          Check.Alone (Check.declsFrom 0 p.decls) d q.decls after := by
  obtain ⟨before, hbefore⟩ : ∃ before, (p.checked entry).diagnostics
      = before ++ Event.diagnostics (Decl.eventsFrom p.site 0 p.decls) := by
    rw [diagnostics_checked, diagnostics_eq, ← List.append_assoc, ← List.append_assoc]
    exact ⟨_, rfl⟩
  refine ⟨p.annotate, p.checked entry, (p.relabel r.relabel).checked (r.name entry),
    p.check_eq entry, ?_, ?_, p.registry_relabel r.faithful, before, _, hbefore,
    fun _ ↦ p.alone_declsFrom_of_shuffles⟩
  · rw [check_eq, p.annotate_rename]
  · rw [diagnostics_checked, diagnostics_checked, diagnostics, diagnostics,
      ← Event.diagnostics_rename]
    exact congrArg Event.diagnostics (p.events_relabel r.faithful entry)

/-- The program `func main(start Int) Void { main(); start = y; } func next() Void {}`. -/
def callingMain : Program :=
  ⟨[.function ⟨"main", [⟨"start", "Int", ⟨1, 11⟩⟩], "Void", ⟨⟨1, 27⟩, [],
      [.expr (.call ⟨⟨1, 29⟩, none⟩ "main" []),
        .expr (.assign ⟨⟨1, 37⟩, none⟩ "start" (.var ⟨⟨1, 45⟩, none⟩ "y"))]⟩, ⟨1, 1⟩⟩,
    .function ⟨"next", [], "Void", ⟨⟨1, 67⟩, [], []⟩, ⟨1, 50⟩⟩]⟩

/-- The functions of the program, registered from the last to the first. -/
def callingMainReversed : Checker where
  scopes := callingMain.site.scopes
  registry := ⟨callingMain.site.registry.signatures.reverse⟩
  entry := "main"
  function := none
  loopDepth := 0
  log := #[]

/-- If `main` and `start` are swapped, the same is reported about `start` as the entry function. -/
theorem check_rename_callingMain :
    ∃ (r : Renaming) (q : Program) (c c' : Checker), r.name "main" = "start" ∧
      r.name "start" = "main" ∧
      callingMain.check "main" = .ok (q, c) ∧
      (callingMain.relabel r.relabel).check "start" = .ok (q.relabel r.relabel, c') ∧
      c.diagnostics = [.located (.entryHasParameters "main") ⟨1, 1⟩,
        .located (.wrongArgumentCount "main" 1 0) ⟨1, 29⟩,
        .located (.variableNotDeclared "y") ⟨1, 45⟩] ∧
      c'.diagnostics = [.located (.entryHasParameters "start") ⟨1, 1⟩,
        .located (.wrongArgumentCount "start" 1 0) ⟨1, 29⟩,
        .located (.variableNotDeclared "y") ⟨1, 45⟩] ∧
      callingMain.site.Shuffles callingMainReversed.site ∧
      ∃ after, Check.Alone (Check.declsFrom 0 callingMain.decls) callingMainReversed q.decls
        after := by
  have hmain : ¬ Renaming.IsKnown "main" := by decide
  have hstart : ¬ Renaming.IsKnown "start" := by decide
  have hshuffles : callingMain.site.Shuffles callingMainReversed.site :=
    ⟨(List.reverse_perm _).symm, .cons (.refl _) .nil, rfl, rfl⟩
  obtain ⟨q, c, c', hc, hc', hdiagnostics, -, -, after, -, hafter⟩ :=
    check_rename (.swap hmain hstart) callingMain "main"
  cases (check_eq _ _).symm.trans hc
  exact ⟨.swap hmain hstart, _, _, c', rfl, rfl, hc, hc', rfl, hdiagnostics, hshuffles, after,
    hafter _ hshuffles⟩

end Program

end Typewright
