import Typewright.Proofs.ExprTyping

/-!
# The visit of an expression

The check of an expression visits its nodes from the outside in: it goes to the parts of a node and
then applies the rule of the node itself.  All parts are visited, except for the value of an
assignment to a name that is not declared.  `Expr.Visits Γ e path m` says that the check of `e`
comes to the node `m`, where `path` are the nodes on the way from `e`, which is not among them, to
`m`, which is the last of them.

`Expr.check_eq_node` gives the check of a node in terms of the checks of the parts that are visited
and of its own rule, `Expr.ruling`.  So what a node comes to depends on the names that are known and
not on what is around the node, and the visit of a node is a part of the visit of the whole
expression (`Expr.Visits.log_infix`, `Expr.Visits.mem_nodes`).

This is the form in which an expression is talked about wherever the kind of its node does not
matter.  A fact about all diagnostics of an expression is then an induction with one case,
`Expr.induct_visited`: the parts that are visited have it, and so has the rule of the node.  Only
the fact about `Expr.ruling` has to be split by the kinds of nodes, and there are no recursive calls
left in it to be unfolded.

The one exception is why parts and visited parts are told apart.  A theorem that quantifies over all
parts would be wrong for the value of an assignment to an unknown name: that value may hold any
number of errors, and none of them is ever found.
-/

set_option autoImplicit false

namespace Typewright
namespace Expr

/-! ## Parts

The parts of a node in the order in which they are checked. -/

/-- The parts of a node. -/
def parts : Expr → List Expr
  | assign _ _ e => [e]
  | binary _ e _ f => [e, f]
  | unary _ _ e => [e]
  | call _ _ args => args
  | actual _ e => [e]
  | int .. | float .. | string .. | bool .. | var .. | absent _ => []

/-- The parts that the check of a node visits. -/
def visited (Γ : Context) : Expr → List Expr
  | assign _ x e => if (Γ.scopes.lookup x).isSome then [e] else []
  | e => e.parts

theorem visited_assign_of_none {Γ : Context} {x : String} (hx : Γ.scopes.lookup x = none) (n : Note)
    (e : Expr) : (assign n x e).visited Γ = [] := by
  rw [visited, hx, if_neg nofun]

theorem visited_assign_of_some {Γ : Context} {x : String} {b : Binding}
    (hx : Γ.scopes.lookup x = some b) (n : Note) (e : Expr) :
    (assign n x e).visited Γ = [e] := by
  rw [visited, hx, Option.isSome_some, if_pos rfl]

theorem visited_binary (Γ : Context) (n : Note) (e : Expr) (op : BinaryOp) (f : Expr) :
    (binary n e op f).visited Γ = [e, f] := rfl

theorem visited_unary (Γ : Context) (n : Note) (op : UnaryOp) (e : Expr) :
    (unary n op e).visited Γ = [e] := rfl

theorem visited_actual (Γ : Context) (n : Note) (e : Expr) : (actual n e).visited Γ = [e] := rfl

theorem visited_subset_parts {Γ : Context} (e : Expr) : e.visited Γ ⊆ e.parts := by
  cases e with
  | assign n x e =>
    cases hx : Γ.scopes.lookup x with
    | none => rw [visited_assign_of_none hx]; exact List.nil_subset _
    | some b => rw [visited_assign_of_some hx]; exact List.Subset.refl _
  | _ => exact List.Subset.refl _

/-- Induction that follows the check of an expression. -/
@[elab_as_elim]
theorem induct_visited (Γ : Context) {motive : Expr → Prop}
    (node : ∀ e, (∀ f ∈ e.visited Γ, motive f) → motive e) (e : Expr) : motive e := by
  induction e with
  | int | float | string | bool | var | absent => exact node _ (List.forall_mem_nil _)
  | assign n x e ih =>
    refine node _ ?_
    rw [visited]
    split
    · exact List.forall_mem_singleton.2 ih
    · exact List.forall_mem_nil _
  | binary n e op f ihe ihf =>
    exact node _ (List.forall_mem_cons.2 ⟨ihe, List.forall_mem_singleton.2 ihf⟩)
  | unary n op e ih => exact node _ (List.forall_mem_singleton.2 ih)
  | call n f args ih => exact node _ ih
  | actual n e ih => exact node _ (List.forall_mem_singleton.2 ih)

/-- The check of the first expression visits the last one; the nodes in between are those on the way
to it, and it is itself among them if they are not the same. -/
inductive Visits (Γ : Context) : Expr → List Expr → Expr → Prop
  | here {e : Expr} : Visits Γ e [] e
  | part {e f m : Expr} {path : List Expr} (hf : f ∈ e.visited Γ) (h : Visits Γ f path m) :
      Visits Γ e (f :: path) m

/-! ## The rule of a node

`Expr.check` is a recursion that hands the types of the parts to the rule of the node.  Here the two
are taken apart: `Expr.ruling` is the rule alone, applied to what the parts come to, and the lemmas
say that there is nothing else to a check.  How a node is put together again is not of interest
here, so `check_eq_node` only says that there is a way. -/

/-- What the rule of a node says, from what its parts come to. -/
def ruling (Γ : Context) : Expr → Ruling
  | int .. => .accept .int
  | float .. => .accept .float
  | string .. => .accept .string
  | bool .. => .accept .bool
  | var _ x => Rule.var x (Γ.scopes.lookup x)
  | assign _ x e =>
    match Γ.scopes.lookup x with
    | none => .refuse (.targetNotDeclared x)
    | some b => Rule.assign b (e.check Γ).ty
  | binary _ e op f =>
    match (e.check Γ).ty, (f.check Γ).ty with
    | some s, some t => Rule.binary op s t
    | _, _ => .poison
  | unary _ op e =>
    match (e.check Γ).ty with
    | some t => Rule.unary op t
    | none => .poison
  | call _ f args => Rule.call Γ.registry f (args.map fun a ↦ (a.check Γ).ty)
  | actual _ e => { ty := (e.check Γ).ty }
  | absent _ => .accept .void

/-- The check of a node visits parts of it and then applies its own rule. -/
theorem check_eq_node (Γ : Context) (e : Expr) : ∃ rebuild, e.check Γ
    = .node e.note rebuild ((e.visited Γ).flatMap fun f ↦ (f.check Γ).log) (e.ruling Γ) := by
  cases e with
  | int | float | string | bool | var | absent => exact ⟨_, rfl⟩
  -- the one node that does not visit all of its parts
  | assign n x e =>
    cases hx : Γ.scopes.lookup x with
    | none =>
      rw [visited_assign_of_none hx, check, ruling, hx]
      exact ⟨_, rfl⟩
    | some b =>
      rw [visited_assign_of_some hx, check, ruling, hx, List.flatMap_singleton]
      exact ⟨_, rfl⟩
  | binary n e op f =>
    rw [visited_binary, List.flatMap_cons, List.flatMap_singleton]
    exact ⟨(binary · (e.check Γ).expr op (f.check Γ).expr), rfl⟩
  | unary n op e =>
    rw [visited_unary, List.flatMap_singleton]
    exact ⟨(unary · op (e.check Γ).expr), rfl⟩
  | call n f args =>
    rw [check, ruling, checkAll_eq_map, List.flatMap_map, List.map_map, List.map_map]
    exact ⟨_, rfl⟩
  | actual n e =>
    rw [visited_actual, List.flatMap_singleton]
    exact ⟨(actual · (e.check Γ).expr), rfl⟩

/-- The type of an expression is what the rule of its outermost node says. -/
theorem ty_check (Γ : Context) (e : Expr) : (e.check Γ).ty = (e.ruling Γ).ty := by
  obtain ⟨rebuild, h⟩ := e.check_eq_node Γ
  rw [h, Checked.node]

/-- What is logged about an expression: that it is looked at, then the parts, then its own
issues. -/
theorem log_check (Γ : Context) (e : Expr) : (e.check Γ).log = .checkingExpression e.position ::
    ((e.visited Γ).flatMap (fun f ↦ (f.check Γ).log) ++ (e.ruling Γ).events e.position) := by
  obtain ⟨rebuild, h⟩ := e.check_eq_node Γ
  rw [h, Checked.node, position]

/-- The diagnostics of an expression are those of the parts that are visited, and then its own. -/
theorem diagnostics_check (Γ : Context) (e : Expr) : (e.check Γ).diagnostics
    = (e.visited Γ).flatMap (fun f ↦ (f.check Γ).diagnostics)
      ++ (e.ruling Γ).issues.map (.located · e.position) := by
  obtain ⟨rebuild, h⟩ := e.check_eq_node Γ
  rw [h, Checked.diagnostics_node, position, Event.diagnostics, List.filterMap_flatMap]
  rfl

/-! ## The parts of what a check gives

A check gives back an expression of the same shape, so a node of the input can be followed to the
output: what is found there is what the check of that node alone gives. -/

/-- A part that is visited is found again as a part of what the check gives. -/
theorem expr_check_mem_parts {Γ : Context} {e f : Expr} (hf : f ∈ e.visited Γ) :
    (f.check Γ).expr ∈ (e.check Γ).expr.parts := by
  cases e with
  | int | float | string | bool | var | absent => cases hf
  | assign n x e =>
    cases hx : Γ.scopes.lookup x with
    | none =>
      rw [visited_assign_of_none hx] at hf
      cases hf
    | some b =>
      rw [visited_assign_of_some hx, List.mem_singleton] at hf
      subst hf
      rw [check, hx]
      exact List.mem_cons_self
  | binary n e op f' =>
    rcases List.mem_pair.1 hf with rfl | rfl
    · exact List.mem_cons_self
    · exact List.mem_cons_of_mem _ List.mem_cons_self
  | call n f' args =>
    have hparts : ((call n f' args).check Γ).expr.parts = (checkAll Γ args).map (·.expr) := rfl
    rw [hparts, checkAll_eq_map, List.map_map]
    exact List.mem_map_of_mem hf
  | unary | actual =>
    cases List.mem_singleton.1 hf
    exact List.mem_cons_self

/-- The nodes of a part are nodes of the whole. -/
theorem nodes_subset_of_mem_parts {e f : Expr} (hf : f ∈ e.parts) : f.nodes ⊆ e.nodes := by
  intro g hg
  cases e with
  | int | float | string | bool | var | absent => cases hf
  | assign | unary | actual =>
    cases List.mem_singleton.1 hf
    exact List.mem_cons_of_mem _ hg
  | binary n e op f' =>
    rcases List.mem_pair.1 hf with rfl | rfl
    · exact List.mem_cons_of_mem _ (List.mem_append_left _ hg)
    · exact List.mem_cons_of_mem _ (List.mem_append_right _ hg)
  | call n f' args =>
    refine List.mem_cons_of_mem _ ?_
    rw [nodesAll_eq_flatMap, List.mem_flatMap]
    exact ⟨f, hf, hg⟩

theorem mem_nodes_self (e : Expr) : e ∈ e.nodes := by
  cases e <;> exact List.mem_cons_self

namespace Visits

variable {Γ : Context} {e m : Expr} {path : List Expr}

/-- The visit of a node is logged as a part of the visit of the expression. -/
theorem log_infix (h : Visits Γ e path m) : (m.check Γ).log <:+: (e.check Γ).log := by
  induction h with
  | here => exact List.infix_rfl
  | @part e f m path hf _ ih =>
    refine ih.trans ?_
    rw [log_check Γ e]
    -- the parts before and after `f` are logged around it
    obtain ⟨before, after, hparts⟩ := List.append_of_mem hf
    rw [hparts, List.flatMap_append, List.flatMap_cons]
    refine ⟨.checkingExpression e.position :: before.flatMap (fun g ↦ (g.check Γ).log),
      after.flatMap (fun g ↦ (g.check Γ).log) ++ (e.ruling Γ).events e.position, ?_⟩
    simp only [List.cons_append, List.append_assoc]

/-- What the visit of a node gives is a node of what the check of the expression gives. -/
theorem mem_nodes (h : Visits Γ e path m) : (m.check Γ).expr ∈ (e.check Γ).expr.nodes := by
  induction h with
  | here => exact mem_nodes_self _
  | part hf _ ih => exact nodes_subset_of_mem_parts (expr_check_mem_parts hf) ih

end Visits

end Expr
end Typewright
