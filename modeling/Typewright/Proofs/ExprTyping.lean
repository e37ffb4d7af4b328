import Typewright.Proofs.Trace
import Typewright.Proofs.TypeSystem

/-!
# Checking expressions against the type system

`Context.Exact Δ Γ` says that the scopes and the registry that an expression is checked against hold
what the declarations in scope say.  Then an expression is reported about exactly when the rules
give it no type.  The two directions are

* `check_of_hasType`: an expression with a type is not reported about, and the check finds that
  type;
* `hasType_of_check`: an expression that is not reported about has a type.

## Contexts that have lost types

The first direction is proved for more than exact contexts.  In a context that *reflects* the
declarations, `Context.Reflects`, names that have a type may be poisoned where `lax` holds: the
check stays as silent as before, and the types it finds are the right ones as far as it finds any
(`Near`).  With `lax` false nothing is lost, and this is the plain statement.  With `lax` true it
says what happens to the rest of a program when one annotation in it is bad, which is how it is used
later.  Proving both at once costs little, since every rule already has a branch for a part without
a type, and in that branch it is silent.

The second direction is for exact contexts only.  It would fail otherwise: an expression with a
poisoned part is silent although it has no type.

## Uniqueness

The rules are a relation, and nothing in them says that an expression has one type only.  It follows
from the first direction: whatever type the rules give, the check finds it, and the check is a
function (`HasType.unique`).
-/

set_option autoImplicit false

namespace Typewright

open List (Forall₂)

/-! ## Annotations

The check turns an annotation into a type once, when the name is declared, by `Ty.ofVariable?`; the
rules speak of the name of a type.  `VarDecl.hasType_iff` is the bridge. -/

/-- A name of a type is one that a variable can have, unless it is `Void`. -/
theorem Ty.ofVariable?_eq_some_iff {s : String} {t : Ty} :
    Ty.ofVariable? s = some t ↔ s = t.name ∧ t ≠ .void := by
  rw [Ty.ofVariable?, Option.filter_eq_some_iff, Ty.ofName?_eq_some_iff]
  simp

namespace VarDecl

/-- What the name of a declared variable is bound to. -/
def binding (v : VarDecl) : Binding := .ofTy? (Ty.ofVariable? v.typeName)

@[simp] theorem ty?_binding (v : VarDecl) : v.binding.ty? = Ty.ofVariable? v.typeName :=
  Binding.ty?_ofTy? _

theorem hasType_iff {v : VarDecl} {t : Ty} :
    v.HasType t ↔ Ty.ofVariable? v.typeName = some t := by
  rw [HasType, Ty.ofVariable?_eq_some_iff]

end VarDecl

/-- A type that has been found is the right one; where `lax` holds, none may have been found. -/
def Near (lax : Prop) (t : Ty) (found : Option Ty) : Prop := found = some t ∨ lax ∧ found = none

theorem near_some (lax : Prop) (t : Ty) : Near lax t (some t) := .inl rfl

theorem Near.eq_of_some {lax : Prop} {s t : Ty} (h : Near lax t (some s)) : s = t := by
  rcases h with h | ⟨-, h⟩
  · exact Option.some_inj.1 h
  · cases h

/-- Where nothing may be lost, the type is found. -/
theorem Near.eq_some {t : Ty} {found : Option Ty} (h : Near False t found) : found = some t :=
  h.resolve_right fun h ↦ h.1

/-! ## Rules

The rule of an operator as a function and its table as a relation.  The two are compared rule by
rule here, so that no proof about expressions has to look into a table. -/

theorem Ty.isNumeric_iff {t : Ty} : t.isNumeric = true ↔ t ∈ [.int, .float] := by
  cases t <;> decide

theorem Ty.isEquatable_iff {t : Ty} : t.isEquatable = true ↔ t ∈ [.int, .float, .bool] := by
  cases t <;> decide

namespace Ruling

@[simp] theorem issues_accept (t : Ty) : (accept t).issues = [] := rfl

/-- A rule with one condition has no issue exactly if the condition holds. -/
@[simp] theorem issues_acceptIf {ok : Bool} {t : Ty} {i : Issue} :
    (acceptIf ok t i).issues = [] ↔ ok = true := by
  cases ok <;> simp [acceptIf, refuse]

end Ruling

/-! ### Operators

Operators come in families with one condition each.  In the type system a family is a list, in the
rules it is a branch of a `match`; both directions go through the families. -/

/-- The rule of an operator accepts what the type system does, with the same type. -/
theorem BinaryOp.Typing.rule {op : BinaryOp} {s t r : Ty} (h : op.Typing s t r) :
    Rule.binary op s t = .accept r := by
  cases h with
  | arithmeticInt h =>
    simp only [List.mem_cons, List.not_mem_nil, or_false] at h
    rcases h with rfl | rfl | rfl | rfl <;> rfl
  | arithmeticFloat h hs ht hf =>
    rw [← Ty.isNumeric_iff] at hs ht
    -- two integers would give an integer, and one of the operands is a float
    have hne : ¬ (s = .int ∧ t = .int) := by
      rintro ⟨rfl, rfl⟩
      exact absurd hf (by decide)
    simp only [List.mem_cons, List.not_mem_nil, or_false] at h
    rcases h with rfl | rfl | rfl | rfl <;> simp [Rule.binary, Ruling.acceptIf, hs, ht, hne]
  | mod => rfl
  | order h hs ht =>
    rw [← Ty.isNumeric_iff] at hs ht
    simp only [List.mem_cons, List.not_mem_nil, or_false] at h
    rcases h with rfl | rfl | rfl | rfl <;> simp [Rule.binary, Ruling.acceptIf, hs, ht]
  | equality h hs ht =>
    rw [← Ty.isEquatable_iff] at hs ht
    simp only [List.mem_cons, List.not_mem_nil, or_false] at h
    rcases h with rfl | rfl <;> simp [Rule.binary, Ruling.acceptIf, hs, ht]
  | logic h =>
    simp only [List.mem_cons, List.not_mem_nil, or_false] at h
    rcases h with rfl | rfl | rfl <;> rfl
  | bitwise h =>
    simp only [List.mem_cons, List.not_mem_nil, or_false] at h
    rcases h with rfl | rfl <;> rfl

/-- Operands that the rule of an operator has no issue with are accepted by the type system. -/
theorem BinaryOp.typing_of_rule {op : BinaryOp} {s t : Ty} (h : (Rule.binary op s t).issues = []) :
    ∃ r, op.Typing s t r := by
  -- one fact for each family of operators; the operators of a family share their condition
  have arithmetic : op ∈ [.add, .sub, .mul, .div] → s.isNumeric && t.isNumeric →
      ∃ r, op.Typing s t r := by
    intro hop hst
    rw [Bool.and_eq_true, Ty.isNumeric_iff, Ty.isNumeric_iff] at hst
    by_cases hf : s = .float ∨ t = .float
    · exact ⟨_, .arithmeticFloat hop hst.1 hst.2 hf⟩
    · obtain ⟨rfl, rfl⟩ : s = .int ∧ t = .int := by simpa [not_or.1 hf] using hst
      exact ⟨_, .arithmeticInt hop⟩
  have order : op ∈ [.lt, .le, .gt, .ge] → s.isNumeric && t.isNumeric →
      ∃ r, op.Typing s t r := by
    intro hop hst
    rw [Bool.and_eq_true, Ty.isNumeric_iff, Ty.isNumeric_iff] at hst
    exact ⟨_, .order hop hst.1 hst.2⟩
  have equality : op ∈ [.eq, .ne] → s.isEquatable && t.isEquatable → ∃ r, op.Typing s t r := by
    intro hop hst
    rw [Bool.and_eq_true, Ty.isEquatable_iff, Ty.isEquatable_iff] at hst
    exact ⟨_, .equality hop hst.1 hst.2⟩
  have logic : op ∈ [.and, .or, .xor] → s = .bool ∧ t = .bool → ∃ r, op.Typing s t r := by
    rintro hop ⟨rfl, rfl⟩
    exact ⟨_, .logic hop⟩
  have bitwise : op ∈ [.bitAnd, .bitOr] → s = .int ∧ t = .int → ∃ r, op.Typing s t r := by
    rintro hop ⟨rfl, rfl⟩
    exact ⟨_, .bitwise hop⟩
  cases op with
  | add | sub | mul | div => exact arithmetic (by decide) (Ruling.issues_acceptIf.1 h)
  | lt | le | gt | ge => exact order (by decide) (Ruling.issues_acceptIf.1 h)
  | eq | ne => exact equality (by decide) (Ruling.issues_acceptIf.1 h)
  | and | or | xor => exact logic (by decide) (of_decide_eq_true (Ruling.issues_acceptIf.1 h))
  | bitAnd | bitOr => exact bitwise (by decide) (of_decide_eq_true (Ruling.issues_acceptIf.1 h))
  | mod =>
    obtain ⟨rfl, rfl⟩ := of_decide_eq_true (Ruling.issues_acceptIf.1 h)
    exact ⟨_, .mod⟩

theorem UnaryOp.Typing.rule {op : UnaryOp} {s r : Ty} (h : op.Typing s r) :
    Rule.unary op s = .accept r := by
  cases h <;> rfl

theorem UnaryOp.typing_of_rule {op : UnaryOp} {s : Ty} (h : (Rule.unary op s).issues = []) :
    ∃ r, op.Typing s r := by
  cases op with
  | neg =>
    have hs : s ∈ [.int, .float] := Ty.isNumeric_iff.1 (Ruling.issues_acceptIf.1 h)
    simp only [List.mem_cons, List.not_mem_nil, or_false] at hs
    rcases hs with rfl | rfl
    · exact ⟨_, .negInt⟩
    · exact ⟨_, .negFloat⟩
  | not =>
    obtain rfl := of_decide_eq_true (Ruling.issues_acceptIf.1 h)
    exact ⟨_, .not⟩
  | bitNot =>
    obtain rfl := of_decide_eq_true (Ruling.issues_acceptIf.1 h)
    exact ⟨_, .bitNot⟩

/-! ### Arguments

Arguments and parameters are compared pair by pair, and a pair of which a type was not found is
passed over.  So the two directions are not alike: types may be lost in the first one, and all have
to be known in the second. -/

/-- The arguments of a call have no issue with the parameters when no two types that were found
differ. -/
theorem Rule.mismatches_eq_nil (function : String) {params args : List (Option Ty)}
    (h : Forall₂ (fun p a ↦ ∀ s t, p = some s → a = some t → s = t) params args) :
    ∀ n, Rule.mismatches function n params args = [] := by
  induction h with
  | nil => intro n; simp [mismatches]
  | @cons p a params args hpa _ ih =>
    intro n
    cases p with
    | none => simp [mismatches, ih]
    | some s =>
      cases a with
      | none => simp [mismatches, ih]
      | some t => simp [mismatches, ih, hpa s t rfl rfl]

/-- Where the types of all parameters and arguments were found, they have no issue only if they are
the same. -/
theorem Rule.eq_of_mismatches {function : String} : ∀ {n : Nat} {ss ts : List Ty},
    ss.length = ts.length → Rule.mismatches function n (ss.map some) (ts.map some) = [] → ss = ts
  | _, [], [], _, _ => rfl
  | n, s :: ss, t :: ts, hlen, h => by
    rw [List.map_cons, List.map_cons, mismatches, List.append_eq_nil_iff] at h
    have hst : s = t := by
      by_contra hne
      rw [if_neg hne] at h
      simp at h
    rw [hst, eq_of_mismatches (Nat.succ_inj.1 hlen) h.2]

/-! ## Contexts

What the tables of a check have to do with the declarations in the text.  A call looks at a function
through its profile only, so this is all that the registry has to have in common with the
declarations.  The name of the function for output is left out, since a call of it never asks the
registry. -/

/-- What a call looks at in a function: the types of its parameters as far as they have one, and the
annotation of its result. -/
def FnDecl.profile (d : FnDecl) : List (Option Ty) × String :=
  (d.params.map (Ty.ofVariable? ·.typeName), d.returnType)

/-- What a call looks at in a signature. -/
def Signature.profile (s : Signature) : List (Option Ty) × String := (s.params, s.returnType)

namespace Context

/-- The context knows the declarations in scope, though where `lax` holds it may have lost the type
of a variable, of a parameter or of a result. -/
structure Reflects (lax : Prop) (Δ : Context) (Γ : Env) : Prop where
  var : ∀ {x : String} {v : VarDecl}, Γ.varDecl? x = some v →
    ∃ b, Δ.scopes.lookup x = some b ∧ ∀ t, v.HasType t → Near lax t b.ty?
  fn : ∀ {f : String} {d : FnDecl}, f ≠ printName → Γ.fnDecl? f = some d →
    ∃ s, Δ.registry.get? f = some s
      ∧ Forall₂ (fun v p ↦ ∀ t, v.HasType t → Near lax t p) d.params s.params
      ∧ ∀ t, d.returnType = t.name → Near lax t s.result?

/-- The context knows the declarations in scope, and no others. -/
structure Exact (Δ : Context) (Γ : Env) : Prop where
  var : ∀ x, Δ.scopes.lookup x = (Γ.varDecl? x).map VarDecl.binding
  fn : ∀ {f : String}, f ≠ printName →
    (Δ.registry.get? f).map Signature.profile = (Γ.fnDecl? f).map FnDecl.profile

/-- A context that knows a function only by its declaration. -/
theorem Exact.signature {Δ : Context} {Γ : Env} (h : Δ.Exact Γ) {f : String}
    (hf : f ≠ printName) {s : Signature} (hs : Δ.registry.get? f = some s) :
    ∃ d, Γ.fnDecl? f = some d ∧ s.params = d.params.map (Ty.ofVariable? ·.typeName)
      ∧ s.returnType = d.returnType := by
  have hfn := h.fn hf
  rw [hs, Option.map_some, eq_comm, Option.map_eq_some_iff] at hfn
  obtain ⟨d, hd, heq⟩ := hfn
  rw [FnDecl.profile, Signature.profile, Prod.mk.injEq] at heq
  exact ⟨d, hd, heq.1.symm, heq.2.symm⟩

/-- An exact context reflects the declarations, and nothing is lost in it. -/
theorem Exact.reflects {Δ : Context} {Γ : Env} (h : Δ.Exact Γ) (lax : Prop) :
    Δ.Reflects lax Γ where
  var := by
    intro x v hx
    refine ⟨v.binding, by rw [h.var, hx, Option.map_some], ?_⟩
    intro t ht
    rw [VarDecl.ty?_binding, VarDecl.hasType_iff.1 ht]
    exact near_some lax t
  fn := by
    intro f d hf hd
    have hfn := h.fn hf
    rw [hd, Option.map_some, Option.map_eq_some_iff] at hfn
    obtain ⟨s, hs, heq⟩ := hfn
    rw [Signature.profile, FnDecl.profile, Prod.mk.injEq] at heq
    refine ⟨s, hs, ?_, ?_⟩
    · rw [heq.1, List.forall₂_map_right_iff, List.forall₂_same]
      intro v _ t ht
      rw [VarDecl.hasType_iff.1 ht]
      exact near_some lax t
    · intro t ht
      rw [Signature.result?, heq.2, ht, Ty.ofName?_name]
      exact near_some lax t

end Context

/-! ## Expressions

Both directions are inductions over the expression.  What happens at a node is the same at every
node: its parts are silent, so what is left is what its own rule says
(`Checked.diagnostics_node_eq_nil`). -/

/-- The diagnostics of an expression. -/
def Checked.diagnostics (v : Checked) : List Diagnostic := Event.diagnostics v.log

namespace Checked

/-- A node is reported about after its parts, at its own place. -/
@[simp] theorem diagnostics_node (note : Note) (rebuild : Note → Expr) (inner : List Event)
    (r : Ruling) : (Checked.node note rebuild inner r).diagnostics
      = Event.diagnostics inner ++ r.issues.map (.located · note.position) := by
  have hreported : Event.diagnostics (r.events note.position)
      = r.issues.map (.located · note.position) := by
    rw [Ruling.events, Event.diagnostics, List.filterMap_map]
    exact congrFun List.filterMap_eq_map r.issues
  simp [diagnostics, node, Event.diagnostics_cons, Event.diagnostic?, hreported]

/-- A node without an issue of its own has the diagnostics of its parts. -/
theorem diagnostics_node_eq_nil {note : Note} {rebuild : Note → Expr} {inner : List Event}
    {r : Ruling} : (Checked.node note rebuild inner r).diagnostics = []
      ↔ Event.diagnostics inner = [] ∧ r.issues = [] := by
  rw [diagnostics_node, List.append_eq_nil_iff, List.map_eq_nil_iff]

end Checked

/-- Arguments are checked one by one, each in the same context. -/
theorem Expr.checkAll_eq_map (Δ : Context) (es : List Expr) :
    checkAll Δ es = es.map (check Δ) := by
  induction es with
  | nil => simp [checkAll]
  | cons e es ih => simp [checkAll, ih]

/-- The diagnostics of arguments are those of each in turn. -/
theorem Expr.diagnostics_checkAll (Δ : Context) (es : List Expr) :
    Event.diagnostics ((checkAll Δ es).flatMap (·.log))
      = es.flatMap fun e ↦ (e.check Δ).diagnostics := by
  induction es with
  | nil => simp [checkAll]
  | cons e es ih => simp [checkAll, ih, Checked.diagnostics]

/-! ### Expressions with a type are silent

The induction needs more than silence.  A node has to know what its parts hand to its rule, so it is
shown that the type that was found is `t`, or that it was lost where `lax` allows it.  The lemmas
`Rule.finds_*` say of each rule that it passes this on. -/

section Complete

variable {lax : Prop} {Δ : Context} {Γ : Env}

/-- The types of arguments that have one, each found or lost. -/
theorem near_of_forall₂ {es : List Expr} {ts : List Ty}
    (ih : ∀ e ∈ es, ∀ t, HasType Γ e t → Near lax t (e.check Δ).ty ∧ (e.check Δ).diagnostics = [])
    (h : Forall₂ (HasType Γ) es ts) :
    Forall₂ (Near lax) ts ((Expr.checkAll Δ es).map (·.ty))
      ∧ Event.diagnostics ((Expr.checkAll Δ es).flatMap (·.log)) = [] := by
  rw [Expr.diagnostics_checkAll]
  induction h with
  | nil => simp [Expr.checkAll]
  | @cons e t es ts he _ ihs =>
    obtain ⟨hty, hdiag⟩ := ih e List.mem_cons_self t he
    obtain ⟨htys, hdiags⟩ := ihs fun e' he' ↦ ih e' (List.mem_cons_of_mem e he')
    refine ⟨?_, ?_⟩
    · rw [Expr.checkAll, List.map_cons]
      exact .cons hty htys
    · rw [List.flatMap_cons, hdiag, hdiags, List.append_nil]

/-- The ruling finds type `t`, or loses it where that may happen, and has no issue. -/
def Ruling.Finds (lax : Prop) (t : Ty) (r : Ruling) : Prop := Near lax t r.ty ∧ r.issues = []

theorem Ruling.finds_accept (lax : Prop) (t : Ty) : (Ruling.accept t).Finds lax t :=
  ⟨near_some lax t, rfl⟩

/-- A poisoned node is silent; the type is lost, so this has to be allowed. -/
theorem Ruling.finds_poison (h : lax) (t : Ty) : Ruling.poison.Finds lax t :=
  ⟨.inr ⟨h, rfl⟩, rfl⟩

/-- An assignment has the type of its target, even if the value has lost its own. -/
theorem Rule.finds_assign {b : Binding} {t : Ty} {received : Option Ty} (hb : Near lax t b.ty?)
    (hr : Near lax t received) : (Rule.assign b received).Finds lax t := by
  rcases hb with hb | ⟨hlax, hb⟩
  · rcases hr with rfl | ⟨-, rfl⟩
    · simp only [assign, hb, decide_true]
      exact Ruling.finds_accept lax t
    · simp only [assign, hb]
      exact Ruling.finds_accept lax t
  · simp only [assign, hb]
    exact Ruling.finds_poison hlax t

/-- An operator with a poisoned operand is poisoned. -/
theorem Rule.finds_binary {op : BinaryOp} {s t r : Ty} (hop : op.Typing s t r)
    {left right : Option Ty} : Near lax s left → Near lax t right →
    Ruling.Finds lax r (match left, right with
      | some s, some t => Rule.binary op s t
      | _, _ => .poison) := by
  rintro (rfl | ⟨hlax, rfl⟩) hr
  · rcases hr with rfl | ⟨hlax, rfl⟩
    · show Ruling.Finds lax r (Rule.binary op s t)
      rw [hop.rule]
      exact Ruling.finds_accept lax r
    · exact Ruling.finds_poison hlax r
  · exact Ruling.finds_poison hlax r

theorem Rule.finds_unary {op : UnaryOp} {s r : Ty} (hop : op.Typing s r) {operand : Option Ty} :
    Near lax s operand →
    Ruling.Finds lax r (match operand with
      | some t => Rule.unary op t
      | none => .poison) := by
  rintro (rfl | ⟨hlax, rfl⟩)
  · show Ruling.Finds lax r (Rule.unary op s)
    rw [hop.rule]
    exact Ruling.finds_accept lax r
  · exact Ruling.finds_poison hlax r

/-- The function for output gives nothing, whatever became of the format. -/
theorem Rule.finds_print {format : Option Ty} (h : Near lax .string format)
    (args : List (Option Ty)) : (Rule.print (format :: args)).Finds lax .void := by
  rcases h with rfl | ⟨-, rfl⟩ <;> exact Ruling.finds_accept lax .void

/-- Two types that were found for the same thing do not differ, so arguments match parameters. -/
theorem forall₂_agree {params : List VarDecl} {ts : List Ty} {ps as : List (Option Ty)}
    (hparams : Forall₂ VarDecl.HasType params ts)
    (hps : Forall₂ (fun v p ↦ ∀ t, v.HasType t → Near lax t p) params ps)
    (has : Forall₂ (Near lax) ts as) :
    Forall₂ (fun p a ↦ ∀ s t, p = some s → a = some t → s = t) ps as := by
  induction hparams generalizing ps as with
  | nil =>
    cases hps
    cases has
    exact .nil
  | cons hv _ ih =>
    cases hps with
    | cons hp hps =>
      cases has with
      | cons ha has =>
        refine .cons ?_ (ih hps has)
        rintro s t rfl rfl
        exact (hp _ hv).eq_of_some.trans ha.eq_of_some.symm

/-- A call has the type of the result of its function.  It is silent as long as no two types that
were found for a parameter and its argument differ. -/
theorem Rule.finds_applied {s : Signature} {params : List VarDecl} {ts : List Ty} {t : Ty}
    {args : List (Option Ty)} (function : String) (hparams : Forall₂ VarDecl.HasType params ts)
    (hps : Forall₂ (fun v p ↦ ∀ t, v.HasType t → Near lax t p) params s.params)
    (has : Forall₂ (Near lax) ts args) (ht : Near lax t s.result?) :
    (Rule.applied s function args).Finds lax t := by
  have hagree := forall₂_agree hparams hps has
  refine ⟨ht, ?_⟩
  show (if s.params.length = args.length then _ else _) = []
  rw [if_pos hagree.length_eq]
  exact Rule.mismatches_eq_nil function hagree 1

/-- A node is not reported about if its parts are not and its rule finds a type. -/
theorem Checked.node_of_finds {note : Note} {rebuild : Note → Expr} {inner : List Event}
    {r : Ruling} {t : Ty} (hinner : Event.diagnostics inner = []) (hr : r.Finds lax t) :
    Near lax t (Checked.node note rebuild inner r).ty
      ∧ (Checked.node note rebuild inner r).diagnostics = [] :=
  ⟨hr.1, Checked.diagnostics_node_eq_nil.2 ⟨hinner, hr.2⟩⟩

/-- **An expression that has a type is not reported about**, also where types of names were lost.
The type that its check finds is the one that it has, if it finds one. -/
theorem check_of_hasType (hΔ : Δ.Reflects lax Γ) (e : Expr) :
    ∀ t, HasType Γ e t → Near lax t (e.check Δ).ty ∧ (e.check Δ).diagnostics = [] := by
  induction e with
  | int | float | string | bool | absent =>
    rintro t ⟨⟩
    exact Checked.node_of_finds rfl (Ruling.finds_accept lax _)
  | var n x =>
    intro t ht
    cases ht with
    | var hx hv =>
      obtain ⟨b, hb, hnear⟩ := hΔ.var hx
      rw [Expr.check, hb]
      exact Checked.node_of_finds rfl ⟨hnear t hv, rfl⟩
  -- the target and the value have one type, as far as either is known
  | assign n x e ih =>
    intro t ht
    cases ht with
    | assign hx hv he =>
      obtain ⟨b, hb, hnear⟩ := hΔ.var hx
      obtain ⟨hty, hdiag⟩ := ih t he
      rw [Expr.check, hb]
      exact Checked.node_of_finds hdiag (Rule.finds_assign (hnear t hv) hty)
  | binary n e op f ihe ihf =>
    intro t ht
    cases ht with
    | binary he hf hop =>
      obtain ⟨hty, hdiag⟩ := ihe _ he
      obtain ⟨hty', hdiag'⟩ := ihf _ hf
      rw [Expr.check]
      refine Checked.node_of_finds ?_ (Rule.finds_binary hop hty hty')
      rw [Event.diagnostics_append]
      exact List.append_eq_nil_iff.2 ⟨hdiag, hdiag'⟩
  | unary n op e ih =>
    intro t ht
    cases ht with
    | unary he hop =>
      obtain ⟨hty, hdiag⟩ := ih _ he
      rw [Expr.check]
      exact Checked.node_of_finds hdiag (Rule.finds_unary hop hty)
  | call n f args ih =>
    intro t ht
    rw [Expr.check]
    cases ht with
    -- only the first argument of the output is looked at by the rule
    | @print _ a args ts ha hargs =>
      obtain ⟨htys, hdiag⟩ := near_of_forall₂ ih (.cons ha hargs)
      refine Checked.node_of_finds hdiag ?_
      rw [Rule.call, if_pos rfl]
      cases htys with
      | cons hty _ => exact Rule.finds_print hty _
    | call hf hd hparams hargs ht =>
      obtain ⟨htys, hdiag⟩ := near_of_forall₂ ih hargs
      obtain ⟨s, hs, hps, hresult⟩ := hΔ.fn hf hd
      refine Checked.node_of_finds hdiag ?_
      rw [Rule.call, if_neg hf, hs]
      exact Rule.finds_applied f hparams hps htys (hresult t ht)
  | actual n e ih =>
    intro t ht
    cases ht with
    | actual he =>
      obtain ⟨hty, hdiag⟩ := ih t he
      rw [Expr.check]
      exact Checked.node_of_finds hdiag ⟨hty, rfl⟩

end Complete

/-! ### Silent expressions have a type

This needs an exact context.  Where types are lost it is false, since `x + true` is not reported
about if the type of `x` is lost.  The declarations in scope have to name types (`Env.WellFormed`),
since a variable that has none is silent as well. -/

section Sound

/-- The declarations in scope have types of values, and the functions have types of results. -/
structure Env.WellFormed (Γ : Env) : Prop where
  var : ∀ {x : String} {v : VarDecl}, Γ.varDecl? x = some v → ∃ t, v.HasType t
  fn : ∀ {f : String} {d : FnDecl}, Γ.fnDecl? f = some d →
    (∀ v ∈ d.params, ∃ t, v.HasType t) ∧ ∃ t : Ty, d.returnType = t.name

variable {Δ : Context} {Γ : Env}

/-- In an exact context, the check of an expression finds the type that it has. -/
theorem ty_of_hasType (hΔ : Δ.Exact Γ) {e : Expr} {t : Ty} (h : HasType Γ e t) :
    (e.check Δ).ty = some t :=
  (check_of_hasType (hΔ.reflects False) e t h).1.eq_some

/-- Expressions have one type at most. -/
theorem HasType.unique (hΔ : Δ.Exact Γ) {e : Expr} {s t : Ty} (hs : HasType Γ e s)
    (ht : HasType Γ e t) : s = t := by
  have hty := ty_of_hasType hΔ hs
  rw [ty_of_hasType hΔ ht] at hty
  exact (Option.some_inj.1 hty).symm

/-- The types of all parameters, where each has one. -/
theorem VarDecl.exists_types {vs : List VarDecl} (h : ∀ v ∈ vs, ∃ t, v.HasType t) :
    ∃ ts, Forall₂ VarDecl.HasType vs ts ∧ vs.map (Ty.ofVariable? ·.typeName) = ts.map some := by
  induction vs with
  | nil => exact ⟨[], .nil, rfl⟩
  | cons v vs ih =>
    obtain ⟨t, ht⟩ := h v List.mem_cons_self
    obtain ⟨ts, hts, hmap⟩ := ih fun w hw ↦ h w (List.mem_cons_of_mem v hw)
    refine ⟨t :: ts, .cons ht hts, ?_⟩
    rw [List.map_cons, List.map_cons, hmap, VarDecl.hasType_iff.1 ht]

/-- Arguments that are not reported about have types, and their checks find them. -/
theorem exists_types_of_check (hΔ : Δ.Exact Γ) {es : List Expr}
    (ih : ∀ e ∈ es, (e.check Δ).diagnostics = [] → ∃ t, HasType Γ e t)
    (h : Event.diagnostics ((Expr.checkAll Δ es).flatMap (·.log)) = []) :
    ∃ ts, Forall₂ (HasType Γ) es ts ∧ (Expr.checkAll Δ es).map (·.ty) = ts.map some := by
  rw [Expr.diagnostics_checkAll] at h
  induction es with
  | nil => exact ⟨[], .nil, by simp [Expr.checkAll]⟩
  | cons e es ihs =>
    rw [List.flatMap_cons, List.append_eq_nil_iff] at h
    obtain ⟨t, ht⟩ := ih e List.mem_cons_self h.1
    obtain ⟨ts, hts, hmap⟩ := ihs (fun e' he' ↦ ih e' (List.mem_cons_of_mem e he')) h.2
    refine ⟨t :: ts, .cons ht hts, ?_⟩
    rw [Expr.checkAll, List.map_cons, List.map_cons, hmap, ty_of_hasType hΔ ht]

/-- A call that has no issue with the types of its arguments has a type. -/
theorem hasType_call (hΔ : Δ.Exact Γ) (hΓ : Γ.WellFormed) {n : Note} {f : String}
    {args : List Expr} {ts : List Ty} (hargs : Forall₂ (HasType Γ) args ts)
    (h : (Rule.call Δ.registry f (ts.map some)).issues = []) :
    ∃ t, HasType Γ (.call n f args) t := by
  by_cases hf : f = printName
  · rw [Rule.call, if_pos hf] at h
    subst hf
    cases hargs with
    | nil => simp [Rule.print, Ruling.refuse] at h
    | @cons a t args ts ha hargs =>
      rw [List.map_cons, Rule.print, Ruling.issues_acceptIf, decide_eq_true_eq] at h
      exact ⟨.void, .print (h ▸ ha) hargs⟩
  · rw [Rule.call, if_neg hf] at h
    cases hs : Δ.registry.get? f with
    | none => simp [hs, Ruling.refuse] at h
    | some s =>
      -- an exact context has no function but the declared ones, and their annotations name types
      obtain ⟨d, hd, hps, hret⟩ := hΔ.signature hf hs
      obtain ⟨hvs, t, ht⟩ := hΓ.fn hd
      obtain ⟨ss, hss, hmap⟩ := VarDecl.exists_types hvs
      rw [hs] at h
      simp only [Rule.applied, hps, hmap, List.length_map] at h
      by_cases hlen : ss.length = ts.length
      · rw [if_pos hlen] at h
        obtain rfl := Rule.eq_of_mismatches hlen h
        exact ⟨t, .call hf hd hss hargs ht⟩
      · rw [if_neg hlen] at h
        simp at h

/-- **An expression that is not reported about has a type.** -/
theorem hasType_of_check (hΔ : Δ.Exact Γ) (hΓ : Γ.WellFormed) (e : Expr) :
    (e.check Δ).diagnostics = [] → ∃ t, HasType Γ e t := by
  induction e with
  | int n k => intro _; exact ⟨_, .int⟩
  | float n x => intro _; exact ⟨_, .float⟩
  | string n s => intro _; exact ⟨_, .string⟩
  | bool n b => intro _; exact ⟨_, .bool⟩
  | absent n => intro _; exact ⟨_, .absent⟩
  | var n x =>
    intro h
    rw [Expr.check, Checked.diagnostics_node_eq_nil, hΔ.var] at h
    cases hx : Γ.varDecl? x with
    | none => simp [hx, Rule.var, Ruling.refuse] at h
    | some v =>
      obtain ⟨t, ht⟩ := hΓ.var hx
      exact ⟨t, .var hx ht⟩
  | assign n x e ih =>
    intro h
    cases hx : Γ.varDecl? x with
    | none =>
      rw [Expr.check, hΔ.var, hx] at h
      simp [Ruling.refuse] at h
    | some v =>
      rw [Expr.check, hΔ.var, hx, Option.map_some, Checked.diagnostics_node_eq_nil] at h
      obtain ⟨t, ht⟩ := hΓ.var hx
      obtain ⟨s, hs⟩ := ih h.1
      have hrule := h.2
      simp only [Rule.assign, VarDecl.ty?_binding, VarDecl.hasType_iff.1 ht,
        ty_of_hasType hΔ hs, Ruling.issues_acceptIf, decide_eq_true_eq] at hrule
      exact ⟨t, .assign hx ht (hrule ▸ hs)⟩
  | binary n e op f ihe ihf =>
    intro h
    rw [Expr.check, Checked.diagnostics_node_eq_nil, Event.diagnostics_append,
      List.append_eq_nil_iff] at h
    obtain ⟨s, hs⟩ := ihe h.1.1
    obtain ⟨t, ht⟩ := ihf h.1.2
    have hrule := h.2
    simp only [ty_of_hasType hΔ hs, ty_of_hasType hΔ ht] at hrule
    obtain ⟨r, hr⟩ := BinaryOp.typing_of_rule hrule
    exact ⟨r, .binary hs ht hr⟩
  | unary n op e ih =>
    intro h
    rw [Expr.check, Checked.diagnostics_node_eq_nil] at h
    obtain ⟨s, hs⟩ := ih h.1
    have hrule := h.2
    simp only [ty_of_hasType hΔ hs] at hrule
    obtain ⟨r, hr⟩ := UnaryOp.typing_of_rule hrule
    exact ⟨r, .unary hs hr⟩
  | call n f args ih =>
    intro h
    rw [Expr.check, Checked.diagnostics_node_eq_nil] at h
    obtain ⟨ts, hts, hmap⟩ := exists_types_of_check hΔ ih h.1
    exact hasType_call hΔ hΓ hts (hmap ▸ h.2)
  | actual n e ih =>
    intro h
    rw [Expr.check, Checked.diagnostics_node_eq_nil] at h
    obtain ⟨t, ht⟩ := ih h.1
    exact ⟨t, .actual ht⟩

end Sound

/-! ## The types that are written on expressions

A check does not only report, it also writes the type that it found on every node.  For a well-typed
expression these are the types of the rules, at every node and not only at the top. -/

section Annotated

variable {Δ : Context} {Γ : Env}

/-- The check of an expression writes the type that it finds on the top node. -/
theorem ty_expr_check (Δ : Context) (e : Expr) :
    (e.check Δ).expr.ty = some ((e.check Δ).ty.getD .void) := by
  cases e with
  | assign n x e =>
    rw [Expr.check]
    cases Δ.scopes.lookup x <;> rfl
  | _ => rfl

@[simp] theorem Relabel.note_untyped (n : Note) (t : Option Ty) :
    Relabel.untyped.note { n with ty := t } = Relabel.untyped.note n := rfl

/-- The check of an expression changes nothing but the types on its nodes. -/
theorem untyped_expr_check (Δ : Context) (e : Expr) :
    (e.check Δ).expr.relabel .untyped = e.relabel .untyped := by
  induction e with
  | int | float | string | bool | var | absent => rfl
  | assign n x e ih =>
    rw [Expr.check]
    cases Δ.scopes.lookup x with
    | none => rfl
    | some b => simp [Checked.node, Expr.relabel, ih]
  | binary n e op f ihe ihf => simp [Expr.check, Checked.node, Expr.relabel, ihe, ihf]
  | unary n op e ih => simp [Expr.check, Checked.node, Expr.relabel, ih]
  | call n f args ih =>
    simpa [Expr.check, Expr.checkAll_eq_map, Checked.node, Expr.relabel] using ih
  | actual n e ih => simp [Expr.check, Checked.node, Expr.relabel, ih]

/-! ### The type system after the check

A type on a node is right if the type system gives it to the node, as it stands in the checked tree.
So the checked tree must have a type again, and it has the one from before, since typing does not
look at what is noted on nodes. -/

/-- The types of arguments are still theirs after the check. -/
theorem forall₂_hasType_check {es : List Expr} {ts : List Ty}
    (ih : ∀ e ∈ es, ∀ t, HasType Γ e t → HasType Γ (e.check Δ).expr t)
    (h : Forall₂ (HasType Γ) es ts) :
    Forall₂ (HasType Γ) ((Expr.checkAll Δ es).map (·.expr)) ts := by
  induction h with
  | nil =>
    rw [Expr.checkAll, List.map_nil]
    exact .nil
  | @cons e t es ts he _ ihs =>
    rw [Expr.checkAll, List.map_cons]
    exact .cons (ih e List.mem_cons_self t he)
      (ihs fun e' he' ↦ ih e' (List.mem_cons_of_mem e he'))

/-- The type of an expression is still its type after the check. -/
theorem hasType_expr_check (hΔ : Δ.Exact Γ) (e : Expr) :
    ∀ t, HasType Γ e t → HasType Γ (e.check Δ).expr t := by
  induction e with
  | int | float | string | bool | absent => rintro t ⟨⟩; constructor
  | var n x => rintro t ⟨⟩; constructor <;> assumption
  | assign n x e ih =>
    intro t ht
    cases ht with
    | assign hx hv he =>
      rw [Expr.check, hΔ.var, hx]
      exact .assign hx hv (ih t he)
  | binary n e op f ihe ihf =>
    intro t ht
    cases ht with
    | binary he hf hop => exact .binary (ihe _ he) (ihf _ hf) hop
  | unary n op e ih =>
    intro t ht
    cases ht with
    | unary he hop => exact .unary (ih _ he) hop
  | call n f args ih =>
    intro t ht
    cases ht with
    | @print _ a args ts ha hargs =>
      have hrest := forall₂_hasType_check (fun e he ↦ ih e (List.mem_cons_of_mem a he)) hargs
      exact .print (ih a List.mem_cons_self _ ha) hrest
    | call hf hd hparams hargs ht =>
      exact .call hf hd hparams (forall₂_hasType_check ih hargs) ht
  | actual n e ih =>
    intro t ht
    cases ht with
    | actual he => exact .actual (ih t he)

/-- The top node of an expression carries its type after the check. -/
theorem carriesType_expr_check (hΔ : Δ.Exact Γ) {e : Expr} {t : Ty} (h : HasType Γ e t) :
    (e.check Δ).expr.CarriesType Γ := by
  have h' := hasType_expr_check hΔ e t h
  refine ⟨t, by rw [ty_expr_check, ty_of_hasType hΔ h, Option.getD_some], fun s ↦ ⟨?_, ?_⟩⟩
  · intro hs
    exact hs.unique hΔ h'
  · rintro rfl
    exact h'

/-- The arguments of a call that has a type have types. -/
theorem HasType.exists_of_mem_args {n : Note} {f : String} {args : List Expr} {t : Ty}
    (h : HasType Γ (.call n f args) t) {a : Expr} (ha : a ∈ args) : ∃ s, HasType Γ a s := by
  obtain ⟨ts, hts⟩ : ∃ ts, Forall₂ (HasType Γ) args ts := by
    cases h with
    | print hformat hargs => exact ⟨_, .cons hformat hargs⟩
    | call _ _ _ hargs _ => exact ⟨_, hargs⟩
  clear h
  induction hts with
  | nil => exact absurd ha List.not_mem_nil
  | @cons b s args ts hb _ ih =>
    rcases List.mem_cons.1 ha with rfl | ha
    · exact ⟨s, hb⟩
    · exact ih ha

/-- **Every node of an expression that has a type carries its own after the check.** -/
theorem carriesType_of_mem_nodes (hΔ : Δ.Exact Γ) (e : Expr) :
    ∀ t, HasType Γ e t → ∀ m ∈ (e.check Δ).expr.nodes, m.CarriesType Γ := by
  induction e with
  | int | float | string | bool | var | absent =>
    intro t ht m hm
    obtain rfl := List.mem_singleton.1 hm
    exact carriesType_expr_check hΔ ht
  | assign n x e ih =>
    intro t ht m hm
    have htop := carriesType_expr_check hΔ ht
    cases ht with
    | assign hx hv he =>
      rw [Expr.check, hΔ.var, hx] at hm htop
      rcases List.mem_cons.1 hm with rfl | hm
      · exact htop
      · exact ih t he m hm
  | binary n e op f ihe ihf =>
    intro t ht m hm
    have htop := carriesType_expr_check hΔ ht
    cases ht with
    | binary he hf hop =>
      rcases List.mem_cons.1 hm with rfl | hm
      · exact htop
      · rcases List.mem_append.1 hm with hm | hm
        · exact ihe _ he m hm
        · exact ihf _ hf m hm
  | unary n op e ih =>
    intro t ht m hm
    have htop := carriesType_expr_check hΔ ht
    cases ht with
    | unary he hop =>
      rcases List.mem_cons.1 hm with rfl | hm
      · exact htop
      · exact ih _ he m hm
  | call n f args ih =>
    intro t ht m hm
    rcases List.mem_cons.1 hm with rfl | hm
    · exact carriesType_expr_check hΔ ht
    · rw [Expr.nodesAll_eq_flatMap, Expr.checkAll_eq_map, List.map_map, List.flatMap_map,
        List.mem_flatMap] at hm
      obtain ⟨a, ha, hm⟩ := hm
      -- a call that has a type has typed arguments, also those of the output that no rule looks at
      obtain ⟨s, hs⟩ := ht.exists_of_mem_args ha
      exact ih a ha s hs m hm
  | actual n e ih =>
    intro t ht m hm
    have htop := carriesType_expr_check hΔ ht
    cases ht with
    | actual he =>
      rcases List.mem_cons.1 hm with rfl | hm
      · exact htop
      · exact ih t he m hm

end Annotated

end Typewright
