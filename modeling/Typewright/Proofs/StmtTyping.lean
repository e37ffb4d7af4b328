import Typewright.Proofs.Declarations

/-!
# Checking statements against the type system

A statement that may stand where it does is not reported about (`Stmt.diagnostics_of_wellFormed`),
and one that is not reported about may stand there (`Stmt.wellFormed_of_diagnostics`).  Both are
inductions over statements and blocks together.  The work that is done at expressions and at
declarations is done in the files on these; what is added here are conditions, returns and jumps.

As for expressions, the first of the two is proved for sites that may have lost types, and so may
the type that a `return` is compared with: `Near lax ret ret'` says that `ret'` is the type of the
result or, where that is allowed, unknown.  A `return` in a function whose result is unknown is
never reported about.

A site has more than a context: it counts the loops around.  The rules only know whether there is a
loop.  `Site.Reflects` asks for a count other than zero inside of a loop, which is what silence
needs, and `Site.Exact` for the converse as well, which is what soundness needs.

The last section is about the types that a check writes on the expressions of a statement:
`Stmt.carryTypes_annotate` says that all of them are there and right if the statement is well
formed.
-/

set_option autoImplicit false

namespace Typewright

/-! ## The diagnostics of a statement

One equation for each kind of statement: its diagnostics are those of its parts in the order in
which they are checked, and then its own.  The events around them, which open and close scopes,
count for nothing.  The inductions below go through these equations and do not look at events. -/

/-- Opening and closing a scope is not reported about. -/
@[simp] theorem Site.diagnostics_inScope (σ : Site) (es : List Event) :
    Event.diagnostics (σ.inScope es) = Event.diagnostics es := by
  simp [inScope, Event.diagnostics_cons, Event.diagnostic?]

/-- A condition is reported about as an expression, and then for its type. -/
theorem Expr.diagnostics_predicateEvents (Δ : Context) (statement : String) (p : Position)
    (e : Expr) : Event.diagnostics (e.predicateEvents Δ statement p) = (e.check Δ).diagnostics
      ++ (Rule.predicateIssue? statement (e.check Δ).ty).toList.map (.located · p) := by
  rw [predicateEvents, Event.diagnostics_append, diagnostics_reports, Checked.diagnostics]

theorem Expr.diagnostics_returnEvents (σ : Site) (ret : Option Ty) (p : Position) (e : Expr) :
    Event.diagnostics (e.returnEvents σ ret p) = (e.check σ.context).diagnostics
      ++ (Rule.returnIssue? (σ.function.getD "") ret (!e.isAbsent)
        (e.check σ.context).ty).toList.map (.located · p) := by
  rw [returnEvents, Event.diagnostics_append, diagnostics_reports, Checked.diagnostics]

namespace Stmt

variable (σ : Site) (ret : Option Ty)

@[simp] theorem diagnostics_block (b : Block) :
    Event.diagnostics (Stmt.events σ ret (.block b)) = Event.diagnostics (b.events σ ret) := by
  simp [events, Event.diagnostics_cons, Event.diagnostic?]

@[simp] theorem diagnostics_cond (p : Position) (c : Expr) (a b : Block) :
    Event.diagnostics (Stmt.events σ ret (.cond p c a b))
      = Event.diagnostics (c.predicateEvents σ.context "if" p)
        ++ (Event.diagnostics (a.events (σ.push []) ret)
          ++ Event.diagnostics (b.events (σ.push []) ret)) := by
  simp [events, Event.diagnostics_cons, Event.diagnostic?]

@[simp] theorem diagnostics_whileLoop (p : Position) (c : Expr) (b : Block) :
    Event.diagnostics (Stmt.events σ ret (.whileLoop p c b))
      = Event.diagnostics (c.predicateEvents σ.context "while" p)
        ++ Event.diagnostics (b.events σ.inLoop ret) := by
  simp [events, Event.diagnostics_cons, Event.diagnostic?]

@[simp] theorem diagnostics_forLoop (p : Position) (i c s : Expr) (b : Block) :
    Event.diagnostics (Stmt.events σ ret (.forLoop p i c s b))
      = (i.check σ.context).diagnostics
        ++ (Event.diagnostics (c.loopConditionEvents σ.context p)
          ++ ((s.check σ.context).diagnostics ++ Event.diagnostics (b.events σ.inLoop ret))) := by
  simp [events, Event.diagnostics_cons, Event.diagnostic?, Checked.diagnostics]

@[simp] theorem diagnostics_ret (p : Position) (e : Expr) :
    Event.diagnostics (Stmt.events σ ret (.ret p e))
      = Event.diagnostics (e.returnEvents σ ret p) := by
  simp [events, Event.diagnostics_cons, Event.diagnostic?]

@[simp] theorem diagnostics_jump (p : Position) (j : Jump) :
    Event.diagnostics (Stmt.events σ ret (.jump p j))
      = (Rule.jumpIssue? σ.loops j).toList.map (.located · p) := by
  simp [events, Event.diagnostics_cons, Event.diagnostic?]

@[simp] theorem diagnostics_expr (e : Expr) :
    Event.diagnostics (Stmt.events σ ret (.expr e)) = (e.check σ.context).diagnostics := by
  simp [events, Event.diagnostics_cons, Event.diagnostic?, Checked.diagnostics]

theorem diagnostics_eventsAll (ss : List Stmt) : Event.diagnostics (Stmt.eventsAll σ ret ss)
    = ss.flatMap fun s ↦ Event.diagnostics (s.events σ ret) := by
  induction ss with
  | nil => rfl
  | cons s ss ih => rw [eventsAll, Event.diagnostics_append, ih, List.flatMap_cons]

end Stmt

/-- The diagnostics of a block are those of its declarations and of its statements. -/
@[simp] theorem Block.diagnostics_mk (σ : Site) (ret : Option Ty) (p : Position)
    (vars : List VarDecl) (body : List Stmt) :
    Event.diagnostics (Block.events σ ret ⟨p, vars, body⟩)
      = Event.diagnostics (Scope.localEvents [] vars)
        ++ body.flatMap fun s ↦
          Event.diagnostics (s.events (σ.push (Scope.declareAll [] vars)) ret) := by
  rw [events, Site.diagnostics_inScope, Event.diagnostics_append, Stmt.diagnostics_eventsAll]

/-! ## Statements that may stand where they do

From the rules to the check.  The site has to know what the rules know; it may know less, where that
is allowed. -/

namespace Site

/-- The site knows the declarations in scope, though it may have lost types where `lax` holds, and
is inside a loop if `loop`. -/
structure Reflects (lax : Prop) (σ : Site) (Γ : Env) (loop : Bool) : Prop where
  context : σ.context.Reflects lax Γ
  loops : loop = true → σ.loops ≠ 0

namespace Reflects

variable {lax : Prop} {σ : Site} {Γ : Env} {loop : Bool}

/-- A block adds its variables to the scopes and to the environment.  Their types may be lost, so
those in the scope need only blur those in the environment. -/
theorem push (h : σ.Reflects lax Γ loop) {vs ws : List VarDecl}
    (hws : List.Forall₂ (VarDecl.Blurs lax) vs ws) :
    (σ.push (Scope.declareAll [] ws)).Reflects lax (Γ.enter vs) loop :=
  ⟨h.context.push hws, h.loops⟩

theorem push_nil (h : σ.Reflects lax Γ loop) : (σ.push []).Reflects lax Γ loop :=
  ⟨h.context.push_nil, h.loops⟩

/-- One loop more around: the count is positive, whatever it was. -/
theorem inLoop (h : σ.Reflects lax Γ loop) : σ.inLoop.Reflects lax Γ true :=
  ⟨h.context, fun _ ↦ Nat.succ_ne_zero σ.loops⟩

end Reflects

end Site

section Complete

variable {lax : Prop} {σ : Site} {Γ : Env} {loop : Bool} {ret : Ty} {ret' : Option Ty}

/-! ### Conditions and results

A statement has demands on an expression in three places: as a condition, as the condition of a
`for`, which may be left out, and as the value of a `return`.  Each has a lemma here, and one for
the other direction below. -/

/-- A condition of type `bool` is not reported about.  If its type was lost, the rule for conditions
lets it pass. -/
theorem Expr.diagnostics_predicateEvents_of_hasType {Δ : Context} (hΔ : Δ.Reflects lax Γ)
    {e : Expr} (he : HasType Γ e .bool) (statement : String) (p : Position) :
    Event.diagnostics (e.predicateEvents Δ statement p) = [] := by
  obtain ⟨hty, hdiag⟩ := check_of_hasType hΔ e .bool he
  rw [diagnostics_predicateEvents, hdiag]
  rcases hty with hty | ⟨-, hty⟩ <;> rw [hty] <;> rfl

/-- The condition of a `for` is not reported about if it was left out or has type `bool`. -/
theorem Expr.diagnostics_loopConditionEvents_of_hasType {Δ : Context} (hΔ : Δ.Reflects lax Γ)
    {e : Expr} (he : e.isAbsent ∨ HasType Γ e .bool) (p : Position) :
    Event.diagnostics (e.loopConditionEvents Δ p) = [] := by
  cases habs : e.isAbsent with
  | true =>
    rw [loopConditionEvents, if_pos habs]
    cases e with
    | absent n => rfl
    | _ => cases habs
  | false =>
    rw [loopConditionEvents, if_neg (by simp [habs])]
    exact diagnostics_predicateEvents_of_hasType hΔ (he.resolve_left (by simp [habs])) "for" p

/-- A value of the right type may be returned.  It is compared with what is left of the result,
`ret'`, and a lost type on either side is let pass. -/
theorem Expr.diagnostics_returnEvents_of_hasType (hσ : σ.context.Reflects lax Γ)
    (hret : Near lax ret ret') {e : Expr} (hvoid : ret ≠ .void) (habs : ¬ e.isAbsent)
    (he : HasType Γ e ret) (p : Position) :
    Event.diagnostics (e.returnEvents σ ret' p) = [] := by
  obtain ⟨hty, hdiag⟩ := check_of_hasType hσ e ret he
  rw [diagnostics_returnEvents, hdiag, Bool.eq_false_iff.2 habs]
  rcases hret with rfl | ⟨-, rfl⟩
  · cases ret with
    | void => exact absurd rfl hvoid
    | _ => rcases hty with hty | ⟨-, hty⟩ <;> simp [hty, Rule.returnIssue?]
  · rfl

/-- Nothing may be returned where there is no result. -/
theorem Expr.diagnostics_returnEvents_of_isAbsent (hret : Near lax .void ret') {e : Expr}
    (habs : e.isAbsent) (p : Position) : Event.diagnostics (e.returnEvents σ ret' p) = [] := by
  cases e with
  | absent n => rcases hret with rfl | ⟨-, rfl⟩ <;> rfl
  | _ => cases habs

/-- **A statement that may stand where it does is not reported about**, nor is a block.  The types
of names and of the result may be lost, so this also says that a mistake somewhere else is not
reported once more here. -/
theorem Stmt.diagnostics_of_wellFormed (hret : Near lax ret ret') :
    (∀ s : Stmt, ∀ {Γ : Env} {σ : Site} {loop : Bool}, s.WellFormed Γ ret loop →
      σ.Reflects lax Γ loop → Event.diagnostics (s.events σ ret') = []) ∧
    ∀ b : Block, ∀ {Γ : Env} {σ : Site} {loop : Bool}, b.WellFormed Γ ret loop →
      σ.Reflects lax Γ loop → Event.diagnostics (b.events σ ret') = [] := by
  refine Stmt.induct ?block ?cond ?whileLoop ?forLoop ?ret ?jump ?expr ?body
  case block =>
    rintro b ih Γ σ loop ⟨⟩ hσ
    rw [diagnostics_block]
    exact ih (by assumption) hσ
  case cond =>
    intro p c a b iha ihb Γ σ loop h hσ
    cases h with
    | cond hc ha hb =>
      rw [diagnostics_cond, c.diagnostics_predicateEvents_of_hasType hσ.context hc,
        iha ha hσ.push_nil, ihb hb hσ.push_nil]
      rfl
  case whileLoop =>
    intro p c b ih Γ σ loop h hσ
    cases h with
    | whileLoop hc hb =>
      rw [diagnostics_whileLoop, c.diagnostics_predicateEvents_of_hasType hσ.context hc,
        ih hb hσ.inLoop]
      rfl
  case forLoop =>
    intro p i c s b ih Γ σ loop h hσ
    cases h with
    | forLoop hi hc hs hb =>
      rw [diagnostics_forLoop, (check_of_hasType hσ.context i _ hi).2,
        c.diagnostics_loopConditionEvents_of_hasType hσ.context hc,
        (check_of_hasType hσ.context s _ hs).2, ih hb hσ.inLoop]
      rfl
  case ret =>
    intro p e Γ σ loop h hσ
    rw [diagnostics_ret]
    cases h with
    -- the type of the result may be lost, and then nothing is said about values
    | retNothing he => exact e.diagnostics_returnEvents_of_isAbsent hret he p
    | retValue hvoid habs he =>
      exact e.diagnostics_returnEvents_of_hasType hσ.context hret hvoid habs he p
  case jump =>
    intro p j Γ σ loop h hσ
    cases h with
    | jump =>
      rw [diagnostics_jump, Rule.jumpIssue?, if_neg (hσ.loops rfl)]
      rfl
  case expr =>
    intro e Γ σ loop h hσ
    cases h with
    | expr he =>
      rw [diagnostics_expr]
      exact (check_of_hasType hσ.context e _ he).2
  case body =>
    intro p vars ss ih Γ σ loop h hσ
    cases h with
    | mk hvars hbody =>
      rw [Block.diagnostics_mk, Scope.declares_locals.diagnostics_eq_nil_iff.2 hvars,
        List.nil_append, List.flatMap_eq_nil_iff]
      intro s hs
      exact ih s hs (hbody s hs) (hσ.push (VarDecl.forall₂_blurs_refl lax vars))

end Complete

/-! ## Statements that are not reported about

From the check to the rules.  Here the site has to know what the text declares and nothing else, and
the declarations in scope need types: otherwise silence could come from poison. -/

namespace Site

/-- The site knows the declarations in scope and no others, and is inside a loop exactly if
`loop`. -/
structure Exact (σ : Site) (Γ : Env) (loop : Bool) : Prop where
  context : σ.context.Exact Γ
  env : Γ.WellFormed
  loops : loop = true ↔ σ.loops ≠ 0

namespace Exact

variable {σ : Site} {Γ : Env} {loop : Bool}

theorem push (h : σ.Exact Γ loop) {vs : List VarDecl} (hvs : VarDecl.WellFormed vs) :
    (σ.push (Scope.declareAll [] vs)).Exact (Γ.enter vs) loop :=
  ⟨h.context.push vs, h.env.enter hvs.typed, h.loops⟩

theorem push_nil (h : σ.Exact Γ loop) : (σ.push []).Exact Γ loop :=
  ⟨h.context.push_nil, h.env, h.loops⟩

theorem inLoop (h : σ.Exact Γ loop) : σ.inLoop.Exact Γ true :=
  ⟨h.context, h.env, fun _ ↦ Nat.succ_ne_zero σ.loops, fun _ ↦ rfl⟩

end Exact

end Site

section Sound

variable {σ : Site} {Γ : Env} {ret : Ty}

/-- A condition that is not reported about has type `bool`.  It has some type because it is silent,
and the rule for conditions leaves only this one. -/
theorem Expr.hasType_of_predicateEvents {Δ : Context} (hΔ : Δ.Exact Γ) (hΓ : Γ.WellFormed)
    {statement : String} {p : Position} {e : Expr}
    (h : Event.diagnostics (e.predicateEvents Δ statement p) = []) : HasType Γ e .bool := by
  rw [diagnostics_predicateEvents, List.append_eq_nil_iff] at h
  obtain ⟨t, ht⟩ := hasType_of_check hΔ hΓ e h.1
  have hissue := h.2
  rw [ty_of_hasType hΔ ht] at hissue
  cases t with
  | bool => exact ht
  | _ => cases hissue

/-- The condition of a `for` that is not reported about was left out or has type `bool`. -/
theorem Expr.hasType_of_loopConditionEvents {Δ : Context} (hΔ : Δ.Exact Γ) (hΓ : Γ.WellFormed)
    {p : Position} {e : Expr} (h : Event.diagnostics (e.loopConditionEvents Δ p) = []) :
    e.isAbsent ∨ HasType Γ e .bool := by
  by_cases habs : e.isAbsent
  · exact .inl habs
  · rw [loopConditionEvents, if_neg habs] at h
    exact .inr (hasType_of_predicateEvents hΔ hΓ h)

/-- A `return` that is not reported about may stand where it does. -/
theorem Expr.wellFormed_of_returnEvents (hσ : σ.context.Exact Γ) (hΓ : Γ.WellFormed)
    {p : Position} {e : Expr} (h : Event.diagnostics (e.returnEvents σ (some ret) p) = [])
    (loop : Bool) : Stmt.WellFormed Γ ret loop (.ret p e) := by
  rw [diagnostics_returnEvents, List.append_eq_nil_iff] at h
  obtain ⟨t, ht⟩ := hasType_of_check hσ hΓ e h.1
  have hissue := h.2
  rw [ty_of_hasType hσ ht] at hissue
  cases habs : e.isAbsent with
  | true =>
    rw [habs] at hissue
    cases ret with
    | void => exact .retNothing habs
    | _ => cases hissue
  | false =>
    rw [habs] at hissue
    -- a value in a function without a result is reported, whatever its type
    have hvoid : ret ≠ .void := by
      rintro rfl
      cases hissue
    have heq : t = ret := by
      by_contra hne
      cases ret with
      | void => exact hvoid rfl
      | _ => simp [Rule.returnIssue?, hne] at hissue
    exact .retValue hvoid (by simp [habs]) (heq ▸ ht)

/-- **A statement that is not reported about may stand where it does**, and so may a block.  It is
not stated as an equivalence with the other direction, since the two have different hypotheses on
the site. -/
theorem Stmt.wellFormed_of_diagnostics :
    (∀ s : Stmt, ∀ {Γ : Env} {σ : Site} {loop : Bool}, σ.Exact Γ loop →
      Event.diagnostics (s.events σ (some ret)) = [] → s.WellFormed Γ ret loop) ∧
    ∀ b : Block, ∀ {Γ : Env} {σ : Site} {loop : Bool}, σ.Exact Γ loop →
      Event.diagnostics (b.events σ (some ret)) = [] → b.WellFormed Γ ret loop := by
  refine Stmt.induct ?block ?cond ?whileLoop ?forLoop ?ret ?jump ?expr ?body
  case block =>
    intro b ih Γ σ loop hσ h
    rw [diagnostics_block] at h
    exact .block (ih hσ h)
  case cond =>
    intro p c a b iha ihb Γ σ loop hσ h
    rw [diagnostics_cond, List.append_eq_nil_iff, List.append_eq_nil_iff] at h
    exact .cond (Expr.hasType_of_predicateEvents hσ.context hσ.env h.1) (iha hσ.push_nil h.2.1)
      (ihb hσ.push_nil h.2.2)
  case whileLoop =>
    intro p c b ih Γ σ loop hσ h
    rw [diagnostics_whileLoop, List.append_eq_nil_iff] at h
    exact .whileLoop (Expr.hasType_of_predicateEvents hσ.context hσ.env h.1) (ih hσ.inLoop h.2)
  case forLoop =>
    intro p i c s b ih Γ σ loop hσ h
    rw [diagnostics_forLoop, List.append_eq_nil_iff, List.append_eq_nil_iff,
      List.append_eq_nil_iff] at h
    obtain ⟨t, hi⟩ := hasType_of_check hσ.context hσ.env i h.1
    obtain ⟨u, hs⟩ := hasType_of_check hσ.context hσ.env s h.2.2.1
    exact .forLoop hi (Expr.hasType_of_loopConditionEvents hσ.context hσ.env h.2.1) hs
      (ih hσ.inLoop h.2.2.2)
  case ret =>
    intro p e Γ σ loop hσ h
    rw [diagnostics_ret] at h
    exact Expr.wellFormed_of_returnEvents hσ.context hσ.env h loop
  case jump =>
    intro p j Γ σ loop hσ h
    -- only here does it matter that the count is exact
    have hloops : σ.loops ≠ 0 := by
      intro hzero
      rw [diagnostics_jump, Rule.jumpIssue?, if_pos hzero] at h
      cases h
    obtain rfl := hσ.loops.2 hloops
    exact .jump
  case expr =>
    intro e Γ σ loop hσ h
    rw [diagnostics_expr] at h
    obtain ⟨t, he⟩ := hasType_of_check hσ.context hσ.env e h
    exact .expr he
  case body =>
    intro p vars ss ih Γ σ loop hσ h
    rw [Block.diagnostics_mk, List.append_eq_nil_iff, List.flatMap_eq_nil_iff] at h
    have hvars := Scope.declares_locals.diagnostics_eq_nil_iff.1 h.1
    exact .mk hvars fun s hs ↦ ih s hs (hσ.push hvars) (h.2 s hs)

end Sound

/-! ## The types that are written on statements

What `Stmt.annotate` does to the expressions of a statement: it changes nothing but types
(`Stmt.untyped_annotate`), and it writes the right ones. -/

/-- Statements are annotated one by one, all in the same context. -/
theorem Stmt.annotateAll_eq_map (Δ : Context) (ss : List Stmt) :
    annotateAll Δ ss = ss.map (annotate Δ) := by
  induction ss with
  | nil => rfl
  | cons s ss ih => rw [annotateAll, ih, List.map_cons]

theorem Stmt.exprsAll_eq_flatMap (Γ : Env) (ss : List Stmt) :
    exprsAll Γ ss = ss.flatMap (exprs Γ) := by
  induction ss with
  | nil => rfl
  | cons s ss ih => rw [exprsAll, ih, List.flatMap_cons]

/-- The check of a statement changes nothing but the types on its expressions. -/
theorem Stmt.untyped_annotate :
    (∀ s : Stmt, ∀ Δ : Context, (s.annotate Δ).relabel .untyped = s.relabel .untyped) ∧
    ∀ b : Block, ∀ Δ : Context, (b.annotate Δ).relabel .untyped = b.relabel .untyped := by
  refine Stmt.induct ?block ?cond ?whileLoop ?forLoop ?ret ?jump ?expr ?body
  case block => intro b ih Δ; simp [annotate, relabel, ih]
  case cond => intro p c a b iha ihb Δ; simp [annotate, relabel, untyped_expr_check, iha, ihb]
  case whileLoop => intro p c b ih Δ; simp [annotate, relabel, untyped_expr_check, ih]
  case forLoop => intro p i c s b ih Δ; simp [annotate, relabel, untyped_expr_check, ih]
  case ret => intro p e Δ; simp [annotate, relabel, untyped_expr_check]
  case jump => intro p j Δ; rfl
  case expr => intro e Δ; simp [annotate, relabel, untyped_expr_check]
  case body =>
    intro p vars ss ih Δ
    simp only [Block.annotate, Block.relabel, Stmt.relabelAll_eq_map, annotateAll_eq_map,
      List.map_map, Block.mk.injEq, true_and]
    exact List.map_congr_left fun s hs ↦ ih s hs _

/-- What was left out has a type. -/
theorem HasType.of_isAbsent {Γ : Env} {e : Expr} (h : e.isAbsent) : ∃ t, HasType Γ e t := by
  cases e with
  | absent n => exact ⟨.void, .absent⟩
  | _ => cases h

/-- Every node of every expression in the list carries its type. -/
def CarryTypes (es : List (Env × Expr)) : Prop := ∀ o ∈ es, ∀ n ∈ o.2.nodes, n.CarriesType o.1

namespace CarryTypes

theorem nil : CarryTypes [] := fun _ ho ↦ absurd ho List.not_mem_nil

theorem cons {Γ : Env} {e : Expr} {es : List (Env × Expr)}
    (he : ∀ n ∈ e.nodes, n.CarriesType Γ) (hes : CarryTypes es) : CarryTypes ((Γ, e) :: es) :=
  List.forall_mem_cons.2 ⟨he, hes⟩

theorem append {es fs : List (Env × Expr)} (hes : CarryTypes es) (hfs : CarryTypes fs) :
    CarryTypes (es ++ fs) :=
  List.forall_mem_append.2 ⟨hes, hfs⟩

end CarryTypes

/-- **The expressions of a statement carry their types after the check**, and so do those of a
block. -/
theorem Stmt.carryTypes_annotate {ret : Ty} :
    (∀ s : Stmt, ∀ {Γ : Env} {Δ : Context} {loop : Bool}, s.WellFormed Γ ret loop → Δ.Exact Γ →
      CarryTypes ((s.annotate Δ).exprs Γ)) ∧
    ∀ b : Block, ∀ {Γ : Env} {Δ : Context} {loop : Bool}, b.WellFormed Γ ret loop → Δ.Exact Γ →
      CarryTypes ((b.annotate Δ).exprs Γ) := by
  refine Stmt.induct ?block ?cond ?whileLoop ?forLoop ?ret ?jump ?expr ?body
  case block =>
    intro b ih Γ Δ loop h hΔ
    cases h with
    | block hb => exact ih hb hΔ
  case cond =>
    intro p c a b iha ihb Γ Δ loop h hΔ
    cases h with
    | cond hc ha hb =>
      exact .cons (carriesType_of_mem_nodes hΔ c _ hc)
        (.append (iha ha hΔ.push_nil) (ihb hb hΔ.push_nil))
  case whileLoop =>
    intro p c b ih Γ Δ loop h hΔ
    cases h with
    | whileLoop hc hb => exact .cons (carriesType_of_mem_nodes hΔ c _ hc) (ih hb hΔ)
  case forLoop =>
    intro p i c s b ih Γ Δ loop h hΔ
    cases h with
    | forLoop hi hc hs hb =>
      obtain ⟨t, hc⟩ : ∃ t, HasType Γ c t := hc.elim HasType.of_isAbsent fun hc ↦ ⟨_, hc⟩
      exact .cons (carriesType_of_mem_nodes hΔ i _ hi) (.cons (carriesType_of_mem_nodes hΔ c _ hc)
        (.cons (carriesType_of_mem_nodes hΔ s _ hs) (ih hb hΔ)))
  case ret =>
    intro p e Γ Δ loop h hΔ
    obtain ⟨t, he⟩ : ∃ t, HasType Γ e t := by
      cases h with
      | retNothing habs => exact HasType.of_isAbsent habs
      | retValue _ _ he => exact ⟨_, he⟩
    exact .cons (carriesType_of_mem_nodes hΔ e _ he) .nil
  case jump => exact fun _ _ _ _ _ _ _ ↦ .nil
  case expr =>
    intro e Γ Δ loop h hΔ
    cases h with
    | expr he => exact .cons (carriesType_of_mem_nodes hΔ e _ he) .nil
  case body =>
    intro p vars ss ih Γ Δ loop h hΔ
    cases h with
    | mk hvars hbody =>
      intro o ho
      rw [Block.annotate, Block.exprs, annotateAll_eq_map, exprsAll_eq_flatMap, List.flatMap_map,
        List.mem_flatMap] at ho
      obtain ⟨s, hs, ho⟩ := ho
      exact ih s hs (hbody s hs) (hΔ.push vars) o ho

end Typewright
