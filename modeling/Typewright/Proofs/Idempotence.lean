import Typewright.Proofs.Relabeling
import Typewright.Proofs.Writing

/-!
# Checking again

A check writes types and never reads one.  So programs that differ in nothing but the types on them
are reported about alike, and a program that was checked can be checked again: the second check
comes to the same and finds every type that it writes there already.  Both are said in
`Program.check_blind_and_idempotent`.

The first half is the relabelling of a tree that drops its types.  For the second, the check of what
a check gives is followed through the tree; a value that was not visited is not visited again.

The two halves do not follow from each other.  That a check is blind says that the second one comes
to the same state, but what it *gives* also depends on the types that it does not overwrite.  There
are such types on a value that is not visited, so the second half is about the tree and not about
what is reported.
-/

set_option autoImplicit false

namespace Typewright

/-! ## Without types

Dropping types is a relabelling that keeps all names, so renaming with it changes nothing, and what
is logged is the same. -/

/-- A check cannot tell whether there are types on a tree. -/
theorem Relabel.faithful_untyped : Relabel.untyped.Faithful where
  note := fun _ ↦ rfl
  position := fun _ ↦ rfl
  injective := Function.injective_id
  ty := fun _ ↦ rfl
  print := rfl

section SameNames

theorem Diagnostic.rename_id (d : Diagnostic) : d.rename id = d := by
  obtain ⟨i, p⟩ := d
  cases i <;> rfl

theorem Event.rename_id (e : Event) : e.rename id = e := by
  cases e with
  | reported d => exact congrArg reported d.rename_id
  | _ => rfl

theorem Event.map_rename_id (log : List Event) : log.map (rename id) = log :=
  (List.map_congr_left fun e _ ↦ e.rename_id).trans (List.map_id log)

theorem Site.rename_id (σ : Site) : σ.rename id = σ := by
  have hscope : Scope.rename id = id := funext fun f ↦ List.map_id f
  have hsignature : Signature.rename id = id := rfl
  obtain ⟨⟨frames⟩, ⟨signatures⟩, function, loops⟩ := σ
  rw [rename, Scopes.rename, Registry.rename, hscope, hsignature, List.map_id, List.map_id,
    Option.map_id]
  rfl

end SameNames

namespace Program

/-- Functions are checked at the same site. -/
theorem site_untyped (p : Program) : (p.relabel .untyped).site = p.site :=
  (p.site_relabel Relabel.faithful_untyped).trans p.site.rename_id

/-- A check comes to the same if the types on a program are dropped. -/
theorem checked_untyped (p : Program) (entry : String) :
    (p.relabel .untyped).checked entry = p.checked entry := by
  have hsite : (p.relabel .untyped).outerSite = p.outerSite :=
    (p.outerSite_relabel Relabel.faithful_untyped).trans p.outerSite.rename_id
  have hevents : (p.relabel .untyped).events entry = p.events entry :=
    (p.events_relabel Relabel.faithful_untyped entry).trans (Event.map_rename_id _)
  rw [checked, checked, hsite, hevents]

section Untyped

variable {p q : Program} (h : p.relabel .untyped = q.relabel .untyped)

include h

theorem site_eq_of_untyped : p.site = q.site := by
  rw [← p.site_untyped, h, q.site_untyped]

theorem checked_eq_of_untyped (entry : String) : p.checked entry = q.checked entry := by
  rw [← p.checked_untyped, h, q.checked_untyped]

end Untyped

end Program

/-! ## Once more

A check of what a check gave, in the same context.  At every node the rule is asked for the same
types of the parts, and so it writes what is there. -/

/-- **Checking an expression again comes to the same.** -/
theorem Expr.check_check (Γ : Context) (e : Expr) : (e.check Γ).expr.check Γ = e.check Γ := by
  induction e with
  | int | float | string | bool | var | absent => rfl
  | assign n x e ih => cases hx : Γ.scopes.lookup x <;> simp only [check, Checked.node, hx, ih]
  | binary n e op f ihe ihf => simp only [check, Checked.node, ihe, ihf]
  | unary n op e ih => simp only [check, Checked.node, ih]
  | call n f args ih =>
    have hargs : checkAll Γ ((checkAll Γ args).map (·.expr)) = checkAll Γ args := by
      rw [checkAll_eq_map, checkAll_eq_map, List.map_map, List.map_map]
      exact List.map_congr_left ih
    simp only [check, Checked.node, hargs]
  | actual n e ih => simp only [check, Checked.node, ih]

/-- Checking a statement again changes nothing, and so for a block. -/
theorem Stmt.annotate_annotate :
    (∀ (s : Stmt) (Γ : Context), (s.annotate Γ).annotate Γ = s.annotate Γ) ∧
    ∀ (b : Block) (Γ : Context), (b.annotate Γ).annotate Γ = b.annotate Γ := by
  refine Stmt.induct ?block ?cond ?whileLoop ?forLoop ?ret ?jump ?expr ?body
  case block => intro b ih Γ; rw [annotate, annotate, ih]
  case cond => intro p c a b iha ihb Γ; rw [annotate, annotate, c.check_check, iha, ihb]
  case whileLoop => intro p c b ih Γ; rw [annotate, annotate, c.check_check, ih]
  case forLoop =>
    intro p i c s b ih Γ
    rw [annotate, annotate, i.check_check, c.check_check, s.check_check, ih]
  case ret => intro p e Γ; rw [annotate, annotate, e.check_check]
  case jump => intro p j Γ; rfl
  case expr => intro e Γ; rw [annotate, annotate, e.check_check]
  case body =>
    intro p vars ss ih Γ
    rw [Block.annotate, Block.annotate, annotateAll_eq_map, annotateAll_eq_map, List.map_map]
    exact congrArg (Block.mk p vars) (List.map_congr_left fun s hs ↦ ih s hs _)

theorem FnDecl.annotate_annotate (Γ : Context) (f : FnDecl) :
    (f.annotate Γ).annotate Γ = f.annotate Γ :=
  congrArg (fun body ↦ { f with body }) (Stmt.annotate_annotate.2 f.body _)

namespace Decl

theorem annotate_annotate (Γ : Context) (i : Nat) (d : Decl) :
    (d.annotate Γ i).annotate Γ i = d.annotate Γ i := by
  cases d with
  | global v => rfl
  | function f =>
    by_cases hf : Γ.registry.isInstalled f.name i
    · have hf' : Γ.registry.isInstalled (f.annotate Γ).name i := hf
      rw [annotate, if_pos hf, annotate, if_pos hf', f.annotate_annotate]
    · rw [annotate, if_neg hf, annotate, if_neg hf]

theorem annotateFrom_annotateFrom (Γ : Context) (ds : List Decl) : ∀ i : Nat,
    annotateFrom Γ i (annotateFrom Γ i ds) = annotateFrom Γ i ds := by
  induction ds with
  | nil => exact fun _ ↦ rfl
  | cons d ds ih =>
    intro i
    rw [annotateFrom, annotateFrom, d.annotate_annotate, ih]

end Decl

namespace Program

/-- Checking a program again gives it back as it is. -/
theorem annotate_annotate (p : Program) : p.annotate.annotate = p.annotate := by
  have hsite : p.annotate.site = p.site := site_eq_of_untyped p.untyped_annotate
  rw [annotate, hsite, annotate, Decl.annotateFrom_annotateFrom]

/-- **A check does not read types, and checking again changes nothing.**  Programs that differ in
nothing but the types on them leave the same state after the check: the same is reported about them,
and the same functions are registered.  The program that a check gives is given back as it is when
it is checked again, and that leaves the same state once more. -/
theorem check_blind_and_idempotent {p q : Program}
    (h : p.relabel .untyped = q.relabel .untyped) (entry : String) :
    ∃ p' q' c, p.check entry = .ok (p', c) ∧ q.check entry = .ok (q', c) ∧
      p'.check entry = .ok (p', c) := by
  refine ⟨p.annotate, q.annotate, p.checked entry, p.check_eq entry, ?_, ?_⟩
  · rw [check_eq, checked_eq_of_untyped h]
  · rw [check_eq, p.annotate_annotate, checked_eq_of_untyped p.untyped_annotate]

/-- The program `func main() Void { y = 1; }`, where the type `t` is written on the number. -/
def assigningNumber (t : Option Ty) : Program :=
  ⟨[.function ⟨"main", [], "Void", ⟨⟨1, 18⟩, [],
    [.expr (.assign ⟨⟨1, 20⟩, none⟩ "y" (.int ⟨⟨1, 24⟩, t⟩ 1))]⟩, ⟨1, 1⟩⟩]⟩

/-- The number is not visited, and what was written on it stays there and does not matter. -/
theorem check_blind_and_idempotent_assigningNumber :
    (assigningNumber none).relabel .untyped = (assigningNumber (some .string)).relabel .untyped ∧
    ∃ p' q' c, (assigningNumber none).check "main" = .ok (p', c) ∧
      (assigningNumber (some .string)).check "main" = .ok (q', c) ∧
      p'.check "main" = .ok (p', c) ∧
      c.diagnostics = [.located (.targetNotDeclared "y") ⟨1, 20⟩] := by
  obtain ⟨p', q', c, hp, hq, hp'⟩ :=
    check_blind_and_idempotent (p := assigningNumber none) (q := assigningNumber (some .string))
      rfl "main"
  have hc := (check_eq _ _).symm.trans hp
  cases hc
  exact ⟨rfl, _, _, _, hp, hq, hp', rfl⟩

end Program

end Typewright
