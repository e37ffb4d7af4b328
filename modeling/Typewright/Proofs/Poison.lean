import Typewright.Proofs.Visits

/-!
# Operators do not cascade

A node that is reported about has no type, and an operator stays silent and has no type either if
one of its operands has none: what is wrong below is not reported again above.  Poison goes up
through any number of operators in this way (`Expr.ty_of_visits`), and so it does from a variable
whose annotation was refused, which nothing was reported about at all.

Calls and assignments are where poison ends.  They have a type of their own, and a new issue above
them is one in its own right.  In `-printf(-true)` both minus signs are reported about: the inner
one for its operand, and the outer one because the call gives nothing, whatever its argument is.

The main result is `Check.operators_do_not_cascade`.  It is about a single visit of a node in the
course of any check, so it says for every operator in every expression which of the errors below it
can come together with one of its own: only those with a call or an assignment in between.
-/

set_option autoImplicit false

namespace Typewright
namespace Expr

/-- The node is an operator. -/
def IsOperator : Expr → Prop
  | binary .. | unary .. => True
  | _ => False

/-- The node is a call or an assignment. -/
def StopsPoison : Expr → Prop
  | call .. | assign .. => True
  | _ => False

/-- The rule of the node itself appends a diagnostic to those of the parts that were visited. -/
def Reports (Γ : Context) (e : Expr) : Prop :=
  ∃ ds, ds ≠ [] ∧ (e.check Γ).diagnostics
    = (e.visited Γ).flatMap (fun f ↦ (f.check Γ).diagnostics) ++ ds

/-- The node is a variable whose annotation was refused. -/
def IsRejected (Γ : Context) (e : Expr) : Prop :=
  ∃ n x, e = var n x ∧ Γ.scopes.lookup x = some .rejected

variable {Γ : Context}

/-- A node reports something exactly if its rule has an issue. -/
theorem reports_iff {e : Expr} : e.Reports Γ ↔ (e.ruling Γ).issues ≠ [] := by
  rw [Reports, diagnostics_check]
  constructor
  · rintro ⟨ds, hne, heq⟩ hnil
    rw [hnil, List.map_nil, List.append_right_inj] at heq
    exact hne heq.symm
  · exact fun h ↦ ⟨_, fun hnil ↦ h (List.map_eq_nil_iff.1 hnil), rfl⟩

end Expr

/-! ## Rules

The tables of the operators are of one form: a condition, and a type if it holds and an issue if
not.  So an operator never reports something and has a type at the same time.  This is what makes
poison spread, and it is a property of the tables; calls do not have it. -/

/-- A rule with one condition gives no type where it has an issue. -/
theorem Ruling.ty_acceptIf {ok : Bool} {t : Ty} {i : Issue}
    (h : (acceptIf ok t i).issues ≠ []) : (acceptIf ok t i).ty = none := by
  cases ok with
  | true => exact absurd rfl h
  | false => rfl

theorem Rule.binary_eq_acceptIf (op : BinaryOp) (s t : Ty) :
    ∃ ok u i, binary op s t = .acceptIf ok u i := by
  cases op <;> exact ⟨_, _, _, rfl⟩

theorem Rule.unary_eq_acceptIf (op : UnaryOp) (s : Ty) :
    ∃ ok u i, unary op s = .acceptIf ok u i := by
  cases op <;> exact ⟨_, _, _, rfl⟩

namespace Expr

variable {Γ : Context}

/-- An operator with an operand that has no type is poisoned by it. -/
theorem ruling_of_operand {e f : Expr} (he : e.IsOperator) (hf : f ∈ e.parts)
    (hty : (f.check Γ).ty = none) : e.ruling Γ = .poison := by
  cases e with
  | binary n e op f' =>
    rcases List.mem_pair.1 hf with rfl | rfl
    · rw [ruling, hty]
    · rw [ruling, hty]
      cases (e.check Γ).ty <;> rfl
  | unary n op e =>
    cases List.mem_singleton.1 hf
    rw [ruling, hty]
  | _ => exact he.elim

/-- An operator that is reported about has no type. -/
theorem ty_ruling_of_isOperator {e : Expr} (he : e.IsOperator)
    (h : (e.ruling Γ).issues ≠ []) : (e.ruling Γ).ty = none := by
  -- with an unknown operand the ruling is poison, which has no type
  cases e with
  | binary n e op f =>
    cases hs : (e.check Γ).ty with
    | none => rw [ruling_of_operand he List.mem_cons_self hs]; rfl
    | some s =>
      cases ht : (f.check Γ).ty with
      | none => rw [ruling_of_operand he (List.mem_pair.2 (.inr rfl)) ht]; rfl
      | some t =>
        obtain ⟨ok, u, i, heq⟩ := Rule.binary_eq_acceptIf op s t
        rw [ruling, hs, ht] at h ⊢
        simp only [heq] at h ⊢
        exact Ruling.ty_acceptIf h
  | unary n op e =>
    cases hs : (e.check Γ).ty with
    | none => rw [ruling_of_operand he List.mem_cons_self hs]; rfl
    | some s =>
      obtain ⟨ok, u, i, heq⟩ := Rule.unary_eq_acceptIf op s
      rw [ruling, hs] at h ⊢
      simp only [heq] at h ⊢
      exact Ruling.ty_acceptIf h
  | _ => exact he.elim

/-! ## How poison spreads

A node without a type leaves the node above it without one, unless that is a call or an assignment.
The induction is over the way from the operator down to the node that is reported about. -/

/-- A node that is reported about has no type, and a rejected variable has none. -/
theorem ty_of_reports {e : Expr} (he : ¬ e.StopsPoison) (h : e.Reports Γ ∨ e.IsRejected Γ) :
    (e.check Γ).ty = none := by
  rw [ty_check]
  rcases h with h | ⟨n, x, rfl, hx⟩
  · rw [reports_iff] at h
    cases e with
    | binary n e op f => exact ty_ruling_of_isOperator trivial h
    | unary n op e => exact ty_ruling_of_isOperator trivial h
    | call | assign => exact absurd trivial he
    | var n x =>
      cases hx : Γ.scopes.lookup x with
      | none => rw [ruling, hx]; rfl
      | some b => exact absurd (by rw [ruling, hx]; rfl) h
    | int | float | string | bool | actual | absent => exact absurd rfl h
  · rw [ruling, hx]
    rfl

/-- A part that has no type leaves the node without one, if the node is no call or assignment. -/
theorem ty_of_part {e f : Expr} (he : ¬ e.StopsPoison) (hf : f ∈ e.visited Γ)
    (hty : (f.check Γ).ty = none) : (e.check Γ).ty = none := by
  rw [ty_check]
  cases e with
  | int | float | string | bool | var | absent => cases hf
  | binary n e op f' => rw [ruling_of_operand (e := binary n e op f') trivial hf hty]; rfl
  | unary n op e => rw [ruling_of_operand (e := unary n op e) trivial hf hty]; rfl
  | call | assign => exact absurd trivial he
  | actual n e =>
    cases List.mem_singleton.1 hf
    exact hty

/-- **Poison goes up** to the next call or assignment. -/
theorem ty_of_visits {e m : Expr} {path : List Expr} (h : Visits Γ e path m)
    (hm : m.Reports Γ ∨ m.IsRejected Γ) :
    (∀ k ∈ e :: path, ¬ k.StopsPoison) → (e.check Γ).ty = none := by
  induction h with
  | here => exact fun hpath ↦ ty_of_reports (hpath _ List.mem_cons_self) hm
  | part hf _ ih =>
    rw [List.forall_mem_cons]
    exact fun hpath ↦ ty_of_part hpath.1 hf (ih hm hpath.2)

/-- The nodes on the way to a node are nodes of the expression. -/
theorem Visits.path_subset {e m : Expr} {path : List Expr} (h : Visits Γ e path m) :
    e :: path ⊆ e.nodes := by
  induction h with
  | here => exact List.cons_subset.2 ⟨mem_nodes_self _, List.nil_subset _⟩
  | part hf _ ih =>
    exact List.cons_subset.2 ⟨mem_nodes_self _,
      List.Subset.trans ih (nodes_subset_of_mem_parts (visited_subset_parts _ hf))⟩

/-- An operator that is reported about is above another such node only if poison was stopped. -/
theorem exists_stopsPoison {n m : Expr} {path : List Expr} (hn : n.IsOperator) (hr : n.Reports Γ)
    (h : Visits Γ n path m) (hpath : path ≠ []) (hm : m.Reports Γ) :
    ∃ k ∈ path, k.StopsPoison := by
  by_contra hnone
  cases h with
  | here => exact hpath rfl
  | part hf hvisits =>
    -- nothing on the way stops the poison, so it comes up to the operand, and the operator is
    -- silent
    have hty := ty_of_visits hvisits (.inl hm) fun k hk hstops ↦ hnone ⟨k, hk, hstops⟩
    rw [reports_iff, ruling_of_operand hn (visited_subset_parts _ hf) hty] at hr
    exact hr rfl

/-- An operator is poisoned by an operand in which something is wrong, if nothing stops that. -/
theorem poisoned_of_operand {n f m : Expr} {path : List Expr} (hn : n.IsOperator)
    (hf : f ∈ n.parts) (hclear : ∀ k ∈ f.nodes, ¬ k.StopsPoison) (h : Visits Γ f path m)
    (hm : m.Reports Γ ∨ m.IsRejected Γ) :
    (n.check Γ).ty = none ∧ (n.check Γ).expr.ty = some .void ∧ ¬ n.Reports Γ := by
  have hty := ty_of_visits h hm fun k hk ↦ hclear k (h.path_subset hk)
  have hpoison := ruling_of_operand hn hf hty
  have hnone : (n.check Γ).ty = none := by
    rw [ty_check, hpoison]
    rfl
  refine ⟨hnone, ?_, ?_⟩
  · rw [ty_expr_check, hnone]
    rfl
  · rw [reports_iff, hpoison]
    exact fun h ↦ h rfl

end Expr

namespace Check

open Typewright.Expr

/-- **Operators do not cascade.**  The check of an expression logs the visit of every node that it
comes to, and gives the node back with a type on it.  If an operator among these nodes is itself
reported about, then there is a call or an assignment between it and every node below it that is
reported about.  An operator is poisoned, with `void` written on it and nothing reported about it
itself, if one of its operands has no calls and no assignments in it, and has a node that is
reported about or a variable whose annotation was refused. -/
theorem operators_do_not_cascade (c : Checker) (e : Expr) : ∃ d,
    (expr e).run c = .ok ((e.check c.context).expr, (e.check c.context).ty) d ∧
      d.log.toList = c.log.toList ++ (e.check c.context).log ∧
      ∀ way n, Visits c.context e way n →
        (n.check c.context).log <:+: (e.check c.context).log ∧
        (n.check c.context).expr ∈ (e.check c.context).expr.nodes ∧
        (n.IsOperator →
          (n.Reports c.context → ∀ path m, Visits c.context n path m → path ≠ [] →
            m.Reports c.context → ∃ k ∈ path, k.StopsPoison) ∧
          ∀ f ∈ n.parts, (∀ k ∈ f.nodes, ¬ k.StopsPoison) →
            (∃ path m, Visits c.context f path m ∧
              (m.Reports c.context ∨ m.IsRejected c.context)) →
            (n.check c.context).ty = none ∧ (n.check c.context).expr.ty = some .void ∧
              ¬ n.Reports c.context) := by
  refine ⟨_, expr_apply e c, by simp [Checker.move]; rfl, fun way n hn ↦ ⟨hn.log_infix,
    hn.mem_nodes, fun hop ↦ ⟨fun hr path m ↦ exists_stopsPoison hop hr, ?_⟩⟩⟩
  rintro f hf hclear ⟨path, m, hvisits, hm⟩
  exact poisoned_of_operand hop hf hclear hvisits hm

/-- A state where the annotation of `r` was refused. -/
def refusing : Checker := { Checker.start "main" with scopes := ⟨[[("r", .rejected)]]⟩ }

/-- The expression `-true`. -/
def negatedTruth : Expr := .unary default .neg (.bool default true)

/-- The expression `-printf(-true)`. -/
def negatedCall : Expr :=
  .unary default .neg (.call default printName [.actual default negatedTruth])

/-- The expression `!(r + 1)`. -/
def negatedSum : Expr :=
  .unary default .not (.binary default (.var default "r") .add (.int default 1))

/-- In `-printf(-true)` both operators are reported about, and in `!(r + 1)` none of them is. -/
theorem operators_do_not_cascade_samples :
    (∃ path, Visits refusing.context negatedCall path negatedTruth ∧
      negatedCall.Reports refusing.context ∧ negatedTruth.Reports refusing.context ∧
      ∃ k ∈ path, k.StopsPoison) ∧
    (negatedSum.check refusing.context).ty = none ∧
      (negatedSum.check refusing.context).expr.ty = some .void ∧
      ¬ negatedSum.Reports refusing.context := by
  have houter : negatedCall.Reports refusing.context := reports_iff.2 (List.cons_ne_nil _ _)
  have hinner : negatedTruth.Reports refusing.context := reports_iff.2 (List.cons_ne_nil _ _)
  have hway : Visits refusing.context negatedCall
      [.call default printName [.actual default negatedTruth], .actual default negatedTruth,
        negatedTruth] negatedTruth :=
    .part List.mem_cons_self (.part List.mem_cons_self (.part List.mem_cons_self .here))
  obtain ⟨-, -, -, hcall⟩ := operators_do_not_cascade refusing negatedCall
  obtain ⟨-, -, -, hsum⟩ := operators_do_not_cascade refusing negatedSum
  refine ⟨⟨_, hway, houter, hinner, ((hcall _ _ .here).2.2 trivial).1 houter _ _ hway
    (List.cons_ne_nil _ _) hinner⟩, ((hsum _ _ .here).2.2 trivial).2 _ List.mem_cons_self ?_
    ⟨_, _, .part List.mem_cons_self .here, .inr ⟨_, _, rfl, rfl⟩⟩⟩
  simp [nodes, StopsPoison]

end Check

end Typewright
