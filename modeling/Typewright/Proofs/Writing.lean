import Typewright.Proofs.Installation
import Typewright.Proofs.Resolution

/-!
# A check writes types and nothing else

A check gives the program back with types on its expressions.  `Expr.at?`  finds the node at an
address, and `Expr.visitedAt?`  does so only if the check comes to that node.  After the check of an
expression there is, at every address that was visited, what the visit of the node gave, and at
every other address what was there before: `Expr.at?_check`.

For a whole program this is `Program.check_only_writes_types`.  It also says what stays as it is:
all but the types on the expressions of installed functions.

An address is a list of numbers, one for each step from a node to one of its parts.  It is used
because two nodes of an expression can be equal, in the same place of the text even, if the tree was
made by hand.  A statement about nodes as values would then mix up the two, and one of them may be
visited and the other not.
-/

set_option autoImplicit false

namespace Typewright

open List (Forall₂)

namespace Expr

/-! ## Addresses

The same recursion finds a node through all parts and through the visited ones, so the two are one
definition with a parameter. -/

/-- The node at an address, where `next` are the nodes that follow on a node.  The address has the
number of one of them for every node on the way. -/
def follow (next : Expr → List Expr) : Expr → List Nat → Option Expr
  | e, [] => some e
  | e, k :: a => (next e)[k]?.bind fun f ↦ f.follow next a

/-- The node at an address. -/
def at? : Expr → List Nat → Option Expr := follow parts

/-- The node at an address, if the check visits it. -/
def visitedAt? (Γ : Context) : Expr → List Nat → Option Expr := follow (visited Γ)

theorem at?_cons (e : Expr) (k : Nat) (a : List Nat) :
    e.at? (k :: a) = e.parts[k]?.bind (·.at? a) := rfl

theorem visitedAt?_cons (Γ : Context) (e : Expr) (k : Nat) (a : List Nat) :
    e.visitedAt? Γ (k :: a) = (e.visited Γ)[k]?.bind (·.visitedAt? Γ a) := rfl

/-! ## What a check leaves at an address

At each node either all parts are visited or none is, so a visited part has the same number among
the parts as among the visited ones.  From this the address of a node means the same before and
after the check. -/

/-- All parts of a node are visited and then checked, or none is and they stay as they are. -/
theorem parts_expr_check (Γ : Context) (e : Expr) :
    (e.visited Γ = e.parts ∧ (e.check Γ).expr.parts = e.parts.map fun f ↦ (f.check Γ).expr) ∨
      (e.visited Γ = [] ∧ (e.check Γ).expr.parts = e.parts) := by
  cases e with
  | assign n x e =>
    cases hx : Γ.scopes.lookup x with
    | none =>
      rw [check, hx]
      exact .inr ⟨visited_assign_of_none hx n e, rfl⟩
    | some b =>
      rw [check, hx]
      exact .inl ⟨visited_assign_of_some hx n e, rfl⟩
  | call n f args =>
    have hparts : ((call n f args).check Γ).expr.parts = (checkAll Γ args).map (·.expr) := rfl
    rw [hparts, checkAll_eq_map, List.map_map]
    exact .inl ⟨rfl, rfl⟩
  | _ => exact .inl ⟨rfl, rfl⟩

theorem getElem?_parts_of_visited {Γ : Context} {e f : Expr} {k : Nat}
    (h : (e.visited Γ)[k]? = some f) : e.parts[k]? = some f := by
  rcases e.parts_expr_check Γ with ⟨heq, -⟩ | ⟨heq, -⟩
  · rwa [heq] at h
  · rw [heq] at h
    cases h

/-- A part of what the check gives, by its number. -/
theorem getElem?_parts_check (Γ : Context) (e : Expr) (k : Nat) : (e.check Γ).expr.parts[k]?
    = ((e.visited Γ)[k]?.map fun f ↦ (f.check Γ).expr).or e.parts[k]? := by
  rcases e.parts_expr_check Γ with ⟨heq, hparts⟩ | ⟨heq, hparts⟩
  · rw [hparts, heq, List.getElem?_map]
    cases e.parts[k]? <;> rfl
  · rw [hparts, heq]
    rfl

/-- **A check changes the nodes that it visits, and no others.** -/
theorem at?_check (Γ : Context) (a : List Nat) : ∀ e : Expr, (e.check Γ).expr.at? a
    = ((e.visitedAt? Γ a).map fun m ↦ (m.check Γ).expr).or (e.at? a) := by
  induction a with
  | nil => exact fun _ ↦ rfl
  | cons k a ih =>
    intro e
    rw [at?_cons, at?_cons, visitedAt?_cons, getElem?_parts_check]
    cases hk : (e.visited Γ)[k]? with
    | none => rfl
    | some f =>
      -- a part that is visited is at the same place among all parts
      rw [getElem?_parts_of_visited hk, Option.map_some, Option.some_or, Option.bind_some,
        Option.bind_some, Option.bind_some, ih f]

/-- The expression `after` is `before` with the types on it that a check in `Γ` writes. -/
structure Writes (Γ : Context) (before after : Expr) : Prop where
  /-- On a visited node there is the type that its check gives, and `void` if that gives none. -/
  visited : ∀ {a : List Nat} {m : Expr}, before.visitedAt? Γ a = some m →
    ∃ m', after.at? a = some m' ∧ m'.ty = some ((m.check Γ).ty.getD .void)
  /-- All other nodes are as they were. -/
  unvisited : ∀ {a : List Nat}, before.visitedAt? Γ a = none → after.at? a = before.at? a

/-- A check writes on an expression what it should. -/
theorem writes_check (Γ : Context) (e : Expr) : e.Writes Γ (e.check Γ).expr where
  visited := by
    intro a m h
    rw [at?_check, h]
    exact ⟨_, rfl, ty_expr_check Γ m⟩
  unvisited := by
    intro a h
    rw [at?_check, h]
    rfl

end Expr

namespace Program

/-! ## Programs

The parts of a program that are not expressions are not changed, and the expressions are changed one
by one. -/

theorem getElem?_annotate_of_global {p : Program} {i : Nat} {v : VarDecl}
    (h : p.decls[i]? = some (.global v)) : p.annotate.decls[i]? = some (.global v) := by
  rw [annotate, Decl.getElem?_annotateFrom, h, Option.map_some, Decl.annotate]

theorem untyped_annotate (p : Program) : p.annotate.relabel .untyped = p.relabel .untyped := by
  rw [relabel, relabel, annotate, Decl.untyped_annotateFrom]

/-- **A check only writes types.**  The program that it gives is the one that was checked, but for
the types on expressions; globals, and functions that are not installed, are the same altogether.
The log of the check is made up of the visits of the expressions of installed functions, each where
the names around it are declared.  On every node that such a visit comes to, its type is written, or
`void` if it has none, and on no other node. -/
theorem check_only_writes_types (p : Program) (entry : String) :
    ∃ q c, p.check entry = .ok (q, c) ∧ q.relabel .untyped = p.relabel .untyped ∧
      (∀ (i : Nat) (v : VarDecl), p.decls[i]? = some (.global v) →
        q.decls[i]? = some (.global v)) ∧
      (∀ (i : Nat) (f : FnDecl), p.decls[i]? = some (.function f) →
        ¬ c.registry.isInstalled f.name i → q.decls[i]? = some (.function f)) ∧
      Interleaves c.log.toList ((p.installed c.registry).flatMap fun f ↦
        (f.body.exprs (p.env.enter f.params)).map fun o ↦ (Env.lexicalCheck c.registry o).log) ∧
      ∀ (i : Nat) (f : FnDecl), p.decls[i]? = some (.function f) →
        c.registry.isInstalled f.name i → ∃ g, q.decls[i]? = some (.function g) ∧
          Forall₂ (fun o o' ↦ o.2.Writes (o.1.lexical c.registry) o'.2)
            (f.body.exprs (p.env.enter f.params)) (g.body.exprs (p.env.enter f.params)) := by
  have hlog : (p.checked entry).log.toList = p.events entry := by
    simp [checked, Checker.move, Checker.start]
  refine ⟨p.annotate, p.checked entry, p.check_eq entry, p.untyped_annotate,
    fun i v h ↦ getElem?_annotate_of_global h, fun i f h hf ↦ getElem?_annotate_of_refused h hf,
    hlog ▸ p.interleaves_events entry, fun i f hi hf ↦ ?_⟩
  refine ⟨f.annotate p.site.context,
    (getElem?_annotate_of_installed (g := f.annotate p.site.context) hf).2 ⟨f, hi, hf, rfl⟩, ?_⟩
  rw [exprs_annotate, List.forall₂_map_right_iff, List.forall₂_same]
  exact fun o _ ↦ o.2.writes_check _

end Program

end Typewright
