import Typewright.Proofs.Topics

/-!
# Which expressions a check writes types on

A check visits every expression of an installed function, with one exception: it does not visit the
value of an assignment to a name that is not declared, and leaves on it what was there.  So types
are written on every node exactly if no such assignment is reported (`Program.check_annotates`).

Two things are proved side by side through the tree: where no such assignment is reported, all nodes
carry a type after the check, and where all nodes do and none did before, no such assignment is
reported.  `Settles` holds both, and goes through conjunctions and lists.  Taken apart, the two
would be the same induction twice, with the same split at every node.

Only the second one needs that no node carried a type before.  A tree that comes from the parser is
like that; one that comes from an earlier check is not, and there the value of such an assignment
may still carry the types of that check.
-/

set_option autoImplicit false

namespace Typewright

open Diagnostic

/-! ## Assignments to names that are not declared

`TargetsDeclared` speaks of one issue.  It is one of the two about names that are not declared, so
everything that keeps to other topics has it for free; what is left by hand is the rule of a
variable. -/

/-- No assignment to a name that is not declared is among the diagnostics. -/
def TargetsDeclared (ds : List Diagnostic) : Prop :=
  ∀ d ∈ ds, ∀ x : String, d.issue ≠ .targetNotDeclared x

@[simp] theorem targetsDeclared_nil : TargetsDeclared [] :=
  List.forall_mem_nil _

@[simp] theorem targetsDeclared_append {ds ds' : List Diagnostic} :
    TargetsDeclared (ds ++ ds') ↔ TargetsDeclared ds ∧ TargetsDeclared ds' :=
  List.forall_mem_append

@[simp] theorem targetsDeclared_flatMap {α : Type} {as : List α} {f : α → List Diagnostic} :
    TargetsDeclared (as.flatMap f) ↔ ∀ a ∈ as, TargetsDeclared (f a) := by
  simp only [TargetsDeclared, List.forall_mem_flatMap]

/-- Diagnostics that keep to other topics than names that are not declared are no such
assignments. -/
theorem Diagnostic.KeepTo.targetsDeclared {T : List Topic} {ds : List Diagnostic}
    (h : KeepTo T ds) (hT : .resolving ∉ T) : TargetsDeclared ds := by
  intro d hd x heq
  have htopic := h d hd
  rw [heq] at htopic
  exact hT htopic

theorem Ruling.OfExpression.targetsDeclared {r : Ruling} (h : r.OfExpression) (p : Position) :
    TargetsDeclared (r.issues.map (.located · p)) :=
  (keepTo_located (fun i hi ↦ List.mem_singleton.2 (h i hi)) p).targetsDeclared (by decide)

/-- A variable that is not declared is reported, but not as an assignment. -/
theorem Rule.targetsDeclared_var (x : String) (b : Option Binding) (p : Position) :
    TargetsDeclared ((var x b).issues.map (.located · p)) := by
  cases b with
  | none => exact List.forall_mem_singleton.2 fun _ ↦ Issue.noConfusion
  | some b => exact List.forall_mem_nil _

/-! ## What is proved side by side

A part of a tree comes with three propositions: that it is fresh before the check, that it is
annotated after it, and that no assignment in it is reported.  `Settles` relates the three, and a
node is settled if its parts are. -/

/-- After a check, what is `annotated` where `declared` holds, and where it was `fresh` before, only
there. -/
structure Settles (fresh annotated declared : Prop) : Prop where
  annotated_of : declared → annotated
  declared_of : fresh → annotated → declared

namespace Settles

variable {f f' a a' d d' : Prop}

theorem and (h : Settles f a d) (h' : Settles f' a' d') : Settles (f ∧ f') (a ∧ a') (d ∧ d') :=
  ⟨fun hd ↦ ⟨h.1 hd.1, h'.1 hd.2⟩, fun hf ha ↦ ⟨h.2 hf.1 ha.1, h'.2 hf.2 ha.2⟩⟩

theorem forall_mem {α : Type} {as : List α} {F A D : α → Prop}
    (h : ∀ x ∈ as, Settles (F x) (A x) (D x)) :
    Settles (∀ x ∈ as, F x) (∀ x ∈ as, A x) (∀ x ∈ as, D x) :=
  ⟨fun hd x hx ↦ (h x hx).1 (hd x hx), fun hf ha x hx ↦ (h x hx).2 (hf x hx) (ha x hx)⟩

end Settles

namespace Expr

/-! ## Expressions

Annotated and fresh are the same kind of property: one of the types on the nodes.  So the equations
for the kinds of nodes are stated once, for any such property. -/

/-- The types that are written on the nodes, or that none is, have the property. -/
def AllNodes (P : Option Ty → Prop) (e : Expr) : Prop := ∀ n ∈ e.nodes, P n.ty

/-- A type is written on every node. -/
abbrev Annotated (e : Expr) : Prop := e.AllNodes (· ≠ none)

/-- No type is written on any node. -/
abbrev Fresh (e : Expr) : Prop := e.AllNodes (· = none)

section AllNodes

variable {P : Option Ty → Prop} (n : Note)

/-- What holds of all nodes holds of the outermost one. -/
theorem AllNodes.self {e : Expr} (h : e.AllNodes P) : P e.ty :=
  h e (by cases e <;> simp [nodes])

@[simp] theorem allNodes_assign (x : String) (e : Expr) :
    (assign n x e).AllNodes P ↔ P n.ty ∧ e.AllNodes P := by
  rw [AllNodes, nodes, List.forall_mem_cons]
  rfl

@[simp] theorem allNodes_binary (e : Expr) (op : BinaryOp) (f : Expr) :
    (binary n e op f).AllNodes P ↔ P n.ty ∧ e.AllNodes P ∧ f.AllNodes P := by
  rw [AllNodes, nodes, List.forall_mem_cons, List.forall_mem_append]
  rfl

@[simp] theorem allNodes_unary (op : UnaryOp) (e : Expr) :
    (unary n op e).AllNodes P ↔ P n.ty ∧ e.AllNodes P := by
  rw [AllNodes, nodes, List.forall_mem_cons]
  rfl

@[simp] theorem allNodes_call (f : String) (args : List Expr) :
    (call n f args).AllNodes P ↔ P n.ty ∧ ∀ a ∈ args, a.AllNodes P := by
  rw [AllNodes, nodes, List.forall_mem_cons, nodesAll_eq_flatMap, List.forall_mem_flatMap]
  rfl

@[simp] theorem allNodes_actual (e : Expr) :
    (actual n e).AllNodes P ↔ P n.ty ∧ e.AllNodes P := by
  rw [AllNodes, nodes, List.forall_mem_cons]
  rfl

end AllNodes

/-- A node is settled if its parts are. -/
theorem settles_node {fresh f a : Prop} {note : Note} {rebuild : Note → Expr} {inner : List Event}
    {r : Ruling} (hparts : Settles f a (TargetsDeclared (Event.diagnostics inner)))
    (hr : TargetsDeclared (r.issues.map (.located · note.position))) (hf : fresh → f)
    (ha : ∀ n, (rebuild n).Annotated ↔ n.ty ≠ none ∧ a) :
    Settles fresh (Checked.node note rebuild inner r).expr.Annotated
      (TargetsDeclared (Checked.node note rebuild inner r).diagnostics) := by
  have hdeclared : TargetsDeclared (Checked.node note rebuild inner r).diagnostics ↔
      TargetsDeclared (Event.diagnostics inner) := by
    rw [Checked.diagnostics_node, targetsDeclared_append]
    exact and_iff_left hr
  rw [hdeclared]
  refine ⟨fun h ↦ (ha _).2 ⟨nofun, hparts.annotated_of h⟩, fun h h' ↦ ?_⟩
  exact hparts.declared_of (hf h) ((ha _).1 h').2

/-- A node without parts is settled. -/
theorem settles_leaf {fresh : Prop} {note : Note} {rebuild : Note → Expr} {r : Ruling}
    (hr : TargetsDeclared (r.issues.map (.located · note.position)))
    (ha : ∀ n, (rebuild n).Annotated ↔ n.ty ≠ none) :
    Settles fresh (Checked.node note rebuild [] r).expr.Annotated
      (TargetsDeclared (Checked.node note rebuild [] r).diagnostics) := by
  have hparts : Settles True True (TargetsDeclared (Event.diagnostics [])) :=
    ⟨fun _ ↦ trivial, fun _ _ ↦ targetsDeclared_nil⟩
  exact settles_node hparts hr (fun _ ↦ trivial) fun n ↦ (ha n).trans (and_iff_left trivial).symm

/-- **Types are written on all of an expression, unless it assigns to a name that is not
declared.** -/
theorem settles_check (Γ : Context) (e : Expr) :
    Settles e.Fresh (e.check Γ).expr.Annotated (TargetsDeclared (e.check Γ).diagnostics) := by
  have haccept : ∀ (t : Ty) (p : Position),
      TargetsDeclared ((Ruling.accept t).issues.map (.located · p)) :=
    fun t p ↦ (Ruling.ofExpression_accept t).targetsDeclared p
  induction e with
  | int n k => exact settles_leaf (haccept _ _) fun _ ↦ List.forall_mem_singleton
  | float n x => exact settles_leaf (haccept _ _) fun _ ↦ List.forall_mem_singleton
  | string n s => exact settles_leaf (haccept _ _) fun _ ↦ List.forall_mem_singleton
  | bool n b => exact settles_leaf (haccept _ _) fun _ ↦ List.forall_mem_singleton
  | var n x => exact settles_leaf (Rule.targetsDeclared_var _ _ _) fun _ ↦ List.forall_mem_singleton
  | absent n => exact settles_leaf (haccept _ _) fun _ ↦ List.forall_mem_singleton
  | assign n x e ih =>
    rw [check]
    cases Γ.scopes.lookup x with
    | none =>
      -- the value is as it was, and it has a node
      refine ⟨fun h ↦ ?_, fun hfresh hannotated ↦ ?_⟩
      · have hmem := h (.located (.targetNotDeclared x) n.position) (by simp [Ruling.refuse])
        exact absurd rfl (hmem x)
      · exact absurd ((allNodes_assign n x e).1 hfresh).2.self
          ((allNodes_assign _ x e).1 hannotated).2.self
    | some b =>
      exact settles_node ih ((Rule.ofExpression_assign b _).targetsDeclared _)
        (fun h ↦ ((allNodes_assign n x e).1 h).2) fun n ↦ allNodes_assign n x _
  | binary n e op f ihe ihf =>
    have hparts := ihe.and ihf
    rw [← targetsDeclared_append, Checked.diagnostics, Checked.diagnostics,
      ← Event.diagnostics_append] at hparts
    refine settles_node hparts ?_ (fun h ↦ ((allNodes_binary n e op f).1 h).2)
      fun n ↦ allNodes_binary n _ op _
    split
    · exact (Rule.ofExpression_binary op _ _).targetsDeclared _
    · exact Ruling.ofExpression_poison.targetsDeclared _
  | unary n op e ih =>
    refine settles_node ih ?_ (fun h ↦ ((allNodes_unary n op e).1 h).2)
      fun n ↦ allNodes_unary n op _
    split
    · exact (Rule.ofExpression_unary op _).targetsDeclared _
    · exact Ruling.ofExpression_poison.targetsDeclared _
  | call n f args ih =>
    have hparts := Settles.forall_mem ih
    rw [← targetsDeclared_flatMap, ← diagnostics_checkAll] at hparts
    refine settles_node hparts ((Rule.ofExpression_call _ f _).targetsDeclared _)
      (fun h ↦ ((allNodes_call n f args).1 h).2) fun n ↦ ?_
    rw [Annotated, allNodes_call, checkAll_eq_map, List.map_map, List.forall_mem_map]
    rfl
  | actual n e ih =>
    exact settles_node ih (List.forall_mem_nil _) (fun h ↦ ((allNodes_actual n e).1 h).2)
      fun n ↦ allNodes_actual n _

end Expr

/-! ## Statements

A statement is settled if its expressions are, since what it reports itself is never about an
assignment. -/

namespace Stmt

theorem settles_predicate (Γ : Context) (statement : String) (p : Position) (e : Expr) :
    Settles e.Fresh (e.check Γ).expr.Annotated
      (TargetsDeclared (Event.diagnostics (e.predicateEvents Γ statement p))) := by
  rw [Expr.diagnostics_predicateEvents, targetsDeclared_append,
    and_iff_left ((Rule.topic_predicateIssue? _ _ p).targetsDeclared (by decide))]
  exact e.settles_check Γ

theorem settles_loopCondition (Γ : Context) (p : Position) (e : Expr) :
    Settles e.Fresh (e.check Γ).expr.Annotated
      (TargetsDeclared (Event.diagnostics (e.loopConditionEvents Γ p))) := by
  unfold Expr.loopConditionEvents
  split
  · exact e.settles_check Γ
  · exact settles_predicate Γ "for" p e

theorem settles_return (σ : Site) (ret : Option Ty) (p : Position) (e : Expr) :
    Settles e.Fresh (e.check σ.context).expr.Annotated
      (TargetsDeclared (Event.diagnostics (e.returnEvents σ ret p))) := by
  rw [Expr.diagnostics_returnEvents, targetsDeclared_append,
    and_iff_left ((Rule.topic_returnIssue? _ _ _ _ p).targetsDeclared (by decide))]
  exact e.settles_check σ.context

/-- **Types are written on all expressions of a statement, unless one of them assigns to a name that
is not declared**, and so for a block. -/
theorem settles_annotate (ret : Option Ty) :
    (∀ (s : Stmt) (σ : Site) (Γ Γ' : Env), Settles (∀ o ∈ s.exprs Γ, o.2.Fresh)
      (∀ o ∈ (s.annotate σ.context).exprs Γ', o.2.Annotated)
      (TargetsDeclared (Event.diagnostics (s.events σ ret)))) ∧
    ∀ (b : Block) (σ : Site) (Γ Γ' : Env), Settles (∀ o ∈ b.exprs Γ, o.2.Fresh)
      (∀ o ∈ (b.annotate σ.context).exprs Γ', o.2.Annotated)
      (TargetsDeclared (Event.diagnostics (b.events σ ret))) := by
  refine Stmt.induct ?block ?cond ?whileLoop ?forLoop ?ret ?jump ?expr ?body
  case block =>
    intro b ih σ Γ Γ'
    rw [diagnostics_block]
    exact ih σ Γ Γ'
  case cond =>
    intro p c a b iha ihb σ Γ Γ'
    rw [diagnostics_cond, targetsDeclared_append, targetsDeclared_append]
    simp only [annotate, exprs, List.forall_mem_cons, List.forall_mem_append]
    exact (settles_predicate σ.context "if" p c).and ((iha (σ.push []) Γ Γ').and
      (ihb (σ.push []) Γ Γ'))
  case whileLoop =>
    intro p c b ih σ Γ Γ'
    rw [diagnostics_whileLoop, targetsDeclared_append]
    simp only [annotate, exprs, List.forall_mem_cons]
    exact (settles_predicate σ.context "while" p c).and (ih σ.inLoop Γ Γ')
  case forLoop =>
    intro p i c s b ih σ Γ Γ'
    rw [diagnostics_forLoop, targetsDeclared_append, targetsDeclared_append,
      targetsDeclared_append]
    simp only [annotate, exprs, List.forall_mem_cons]
    exact (i.settles_check σ.context).and ((settles_loopCondition σ.context p c).and
      ((s.settles_check σ.context).and (ih σ.inLoop Γ Γ')))
  case ret =>
    intro p e σ Γ Γ'
    rw [diagnostics_ret]
    simp only [annotate, exprs, List.forall_mem_singleton]
    exact settles_return σ ret p e
  -- a jump has no expression, and what is said about it is not about a target
  case jump =>
    intro p j σ Γ Γ'
    refine ⟨fun _ ↦ nofun, fun _ _ ↦ ?_⟩
    rw [diagnostics_jump]
    exact (Rule.topic_jumpIssue? _ j p).targetsDeclared (by decide)
  case expr =>
    intro e σ Γ Γ'
    rw [diagnostics_expr]
    simp only [annotate, exprs, List.forall_mem_singleton]
    exact e.settles_check σ.context
  case body =>
    intro p vars ss ih σ Γ Γ'
    have hlocals := (Scope.loop_locals.topic_events vars []).targetsDeclared (by decide)
    rw [Block.diagnostics_mk, targetsDeclared_append, targetsDeclared_flatMap,
      and_iff_right hlocals]
    simp only [Block.annotate, Block.exprs, annotateAll_eq_map, exprsAll_eq_flatMap,
      List.flatMap_map, List.forall_mem_flatMap]
    exact Settles.forall_mem fun s hs ↦ ih s hs (σ.push (Scope.declareAll [] vars)) _ _

end Stmt

/-! ## Programs

A function that is not installed is left as it was, so only the installed ones are spoken of.  Which
these are is told by the numbers of the declarations, and these are the same before and after the
check. -/

/-- Types are written on all of an installed function, unless it assigns to a name that is not
declared. -/
theorem FnDecl.settles_annotate (σ : Site) (f : FnDecl) (Γ Γ' : Env) :
    Settles (∀ o ∈ f.body.exprs Γ, o.2.Fresh)
      (∀ o ∈ (f.annotate σ.context).body.exprs Γ', o.2.Annotated)
      (TargetsDeclared (Event.diagnostics (f.events σ))) := by
  have hresult := (Rule.topic_resultIssue? f.name f.returnType f.position).targetsDeclared
    (by decide)
  have hparams := ((Scope.loop_params f.name).topic_events f.params []).targetsDeclared (by decide)
  rw [diagnostics_events, targetsDeclared_append, targetsDeclared_append, and_iff_right hresult,
    and_iff_right hparams]
  exact (Stmt.settles_annotate _).2 f.body ((σ.inFunction f.name).push f.paramScope) Γ Γ'

namespace Decl

/-- The check does not move declarations. -/
theorem getElem?_annotateFrom (Γ : Context) (ds : List Decl) : ∀ i k : Nat,
    (annotateFrom Γ i ds)[k]? = ds[k]?.map (annotate Γ (i + k)) := by
  induction ds with
  | nil => exact fun _ _ ↦ rfl
  | cons d ds ih =>
    intro i k
    cases k with
    | zero => rfl
    | succ k =>
      rw [annotateFrom, List.getElem?_cons_succ, List.getElem?_cons_succ, ih, Nat.add_right_comm,
        Nat.add_assoc]

/-- No assignment in the program is reported exactly if none is in an installed function. -/
theorem targetsDeclared_eventsFrom (σ : Site) (ds : List Decl) : ∀ i : Nat,
    TargetsDeclared (Event.diagnostics (eventsFrom σ i ds)) ↔ ∀ (k : Nat) (f : FnDecl),
      ds[k]? = some (.function f) → σ.registry.isInstalled f.name (i + k) →
        TargetsDeclared (Event.diagnostics (f.events σ)) := by
  induction ds with
  | nil => exact fun _ ↦ ⟨fun _ _ _ ↦ nofun, fun _ ↦ targetsDeclared_nil⟩
  | cons d ds ih =>
    intro i
    rw [eventsFrom, Event.diagnostics_append, targetsDeclared_append, ih]
    constructor
    · rintro ⟨hd, hds⟩ k f hk hf
      cases k with
      | zero =>
        cases hk
        have hf' : σ.registry.isInstalled f.name i = true := hf
        rwa [events, if_pos hf'] at hd
      | succ k => exact hds k f hk (by rwa [Nat.add_right_comm])
    · intro h
      refine ⟨?_, fun k f hk hf ↦ h (k + 1) f hk (by rwa [← Nat.add_assoc, Nat.add_right_comm])⟩
      cases d with
      | global v => exact targetsDeclared_nil
      | function f =>
        by_cases hf : σ.registry.isInstalled f.name i = true
        · rw [events, if_pos hf]
          exact h 0 f rfl hf
        · rw [events, if_neg hf]
          exact targetsDeclared_nil

end Decl

namespace Program

/-- An installed function of the program after the check was one before it. -/
theorem getElem?_annotate_of_installed {p : Program} {k : Nat} {g : FnDecl}
    (hg : p.registry.isInstalled g.name k) : p.annotate.decls[k]? = some (.function g) ↔
      ∃ f, p.decls[k]? = some (.function f) ∧ p.registry.isInstalled f.name k ∧
        f.annotate p.site.context = g := by
  have hregistry : p.site.context.registry = p.registry := rfl
  rw [annotate, Decl.getElem?_annotateFrom, Nat.zero_add, Option.map_eq_some_iff]
  constructor
  · rintro ⟨d, hd, heq⟩
    cases d with
    | global v => cases heq
    | function f =>
      rw [Decl.annotate, Decl.function.injEq, hregistry] at heq
      by_cases hf : p.registry.isInstalled f.name k
      · rw [if_pos hf] at heq
        exact ⟨f, hd, hf, heq⟩
      · rw [if_neg hf] at heq
        exact absurd (heq ▸ hg) hf
  · rintro ⟨f, hd, hf, rfl⟩
    exact ⟨_, hd, by rw [Decl.annotate, hregistry, if_pos hf]⟩

/-- The expressions of the functions that are installed have the property. -/
def InstalledExprs (P : Expr → Prop) (r : Registry) (p : Program) : Prop :=
  ∀ (k : Nat) (f : FnDecl), p.decls[k]? = some (.function f) → r.isInstalled f.name k →
    ∀ o ∈ f.body.exprs (p.env.enter f.params), P o.2

/-- **A check writes a type on every expression of every installed function, unless a name that is
not declared is assigned to.**  If such an assignment is reported, then some expression is left
without a type, where none carried one before the check. -/
theorem check_annotates (p : Program) (entry : String) : ∃ q c, p.check entry = .ok (q, c) ∧
    (TargetsDeclared c.diagnostics → q.InstalledExprs Expr.Annotated c.registry) ∧
    (p.InstalledExprs Expr.Fresh c.registry → q.InstalledExprs Expr.Annotated c.registry →
      TargetsDeclared c.diagnostics) := by
  have hdeclared : TargetsDeclared (p.checked entry).diagnostics ↔ ∀ (k : Nat) (f : FnDecl),
      p.decls[k]? = some (.function f) → p.registry.isInstalled f.name k →
        TargetsDeclared (Event.diagnostics (f.events p.site)) := by
    -- the passes before the bodies have no assignments
    have hinstall := (Registry.topic_installEvents p.decls .empty 0).targetsDeclared (by decide)
    have hentry := (p.registry.topic_entryEvents entry).targetsDeclared (by decide)
    have hglobals := (Scope.loop_globals.topic_events p.globals []).targetsDeclared (by decide)
    rw [diagnostics_checked, diagnostics_eq, targetsDeclared_append, targetsDeclared_append,
      targetsDeclared_append, and_iff_right hinstall, and_iff_right hentry,
      and_iff_right hglobals, Decl.targetsDeclared_eventsFrom]
    simp only [Nat.zero_add]
    rfl
  refine ⟨p.annotate, p.checked entry, p.check_eq entry, fun h k g hk hg ↦ ?_, fun hfresh h ↦ ?_⟩
  · obtain ⟨f, hf, hinstalled, rfl⟩ := (getElem?_annotate_of_installed hg).1 hk
    exact (f.settles_annotate p.site p.env _).annotated_of (hdeclared.1 h k f hf hinstalled)
  · refine hdeclared.2 fun k f hk hf ↦ ?_
    have hg := (getElem?_annotate_of_installed (g := f.annotate p.site.context) hf).2
      ⟨f, hk, hf, rfl⟩
    exact (f.settles_annotate p.site _ _).declared_of (hfresh k f hk hf) (h k _ hg hf)

/-- The program `func main() Void { y = 1; }`. -/
def undeclaredTarget : Program :=
  ⟨[.function ⟨"main", [], "Void", ⟨⟨1, 18⟩, [],
    [.expr (.assign ⟨⟨1, 20⟩, none⟩ "y" (.int ⟨⟨1, 24⟩, none⟩ 1))]⟩, ⟨1, 1⟩⟩]⟩

/-- The check leaves the value of the assignment without a type. -/
theorem check_undeclaredTarget : ∃ q c, undeclaredTarget.check "main" = .ok (q, c) ∧
    ¬ q.InstalledExprs Expr.Annotated c.registry := by
  refine ⟨_, _, check_eq _ _, fun h ↦ ?_⟩
  have hassign := h 0 _ rfl rfl (_, .assign ⟨⟨1, 20⟩, some .void⟩ "y" (.int ⟨⟨1, 24⟩, none⟩ 1))
    (List.mem_singleton.2 rfl)
  exact ((Expr.allNodes_assign _ _ _).1 hassign).2.self rfl

end Program

end Typewright
