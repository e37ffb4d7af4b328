import Typewright.Proofs.Reads

/-!
# Reading expressions against the grammar

Expressions are read by precedence climbing: one loop for all operators, which stops at the first
one that does not bind strongly enough.  The grammar has a layer for every strength.  `Layer.rank`
puts both on one scale, and two facts about it carry the proofs in this file.

* After an expression of a layer `l`, the current token binds at most as strongly as `l.rank`.  That
  is the invariant of the loop (`Grammar.climb_sound`), and it is why the operand that the loop has
  read so far is in the layer of the next operator.
* Read with power `p`, an expression is in the layer `p.layer`, and every expression of that layer
  can be read so (`Grammar.exprWithin_sound`, `Expr.Derives.complete`).

Only a variable can be assigned to or called.  The loop looks at the tree for that and the grammar
at the tokens; `Expr.Derives.name_of_var` says that it comes to the same.

## The two directions

Soundness is an induction on the fuel, with the loop inside.  What is read before the loop and in
each step of it is in some layer, and the layers fit because the loop compares powers.

Completeness is an induction on the derivation.  It cannot be stated as "reading gives the tree",
because a derivation of the left operand ends in front of the operator, where the loop does not
stop.  So `Syntax.Layer.Complete` says something about the middle of a run: reading from the first
token comes, sooner or later, to the loop with the tree in hand and the cursor behind its tokens.
For an operator the left operand brings the loop in front of the operator, which makes one more
step; only at the very end the token that follows is asked for
(`Syntax.Layer.Complete.exprWithin_eq`).  Left recursion in the grammar and the loop in the parser
meet in this way.
-/

set_option autoImplicit false

namespace Typewright

open Syntax

/-! ## Layers and powers

The table of the language against the layers of the grammar.  These are facts about a finite table
and about small numbers, and each of them is decided by going through it; the proofs about the loop
use them by name. -/

namespace Syntax.Layer

/-- The power of the operators of a layer, as far as it has any; in general, how strongly a token
may bind that follows an expression of the layer. -/
def rank : Layer → Nat
  | expr => 1
  | logic => 3
  | bit => 4
  | rel => 5
  | add => 6
  | mul => 7
  | unary => 8
  | call => 9
  | primary => 10

/-- Between two layers there is a next one. -/
theorem exists_next_of_lt {l m : Layer} (h : l.rank < m.rank) :
    ∃ l', l.next? = some l' ∧ l.rank < l'.rank ∧ l'.rank ≤ m.rank := by
  revert h
  cases l <;> cases m <;> decide

theorem rank_lt_of_next {l m : Layer} (h : l.next? = some m) : l.rank < m.rank := by
  cases l <;> cases h <;> decide

theorem rank_injective {l m : Layer} (h : l.rank = m.rank) : l = m := by
  revert h
  cases l <;> cases m <;> decide

end Syntax.Layer

/-! ### Powers

A power is what the parser passes down, and a layer is what the grammar has.  Every power asks for
one layer, and how powers compare is how the ranks of their layers do. -/

namespace Power

/-- The layer of the expressions that are read with a power. -/
def layer : Power → Layer
  | lowest | comma => .expr
  | assignment => .logic
  | logical => .bit
  | bitwise => .rel
  | relational => .add
  | additive => .mul
  | multiplicative | unary | call | primary => .unary

/-- No power asks for a layer further inside than that of unary operators. -/
theorem rank_layer_le_unary (p : Power) : p.layer.rank ≤ Layer.unary.rank := by
  cases p <;> decide

theorem rank_le_layer {p : Power} (h : p < .call) : p.rank ≤ p.layer.rank := by
  revert h
  cases p <;> decide

/-- An operator that is stronger than a power is in the layer of that power or further inside. -/
theorem rank_layer_le_of_lt {p : Power} {l : Layer} (h : p.rank < l.rank) :
    p.layer.rank ≤ l.rank := by
  revert h
  cases p <;> cases l <;> decide

theorem rank_layer_mono {p q : Power} (h : p.rank ≤ q.rank) : p.layer.rank ≤ q.layer.rank := by
  revert h
  cases p <;> cases q <;> decide

theorem lt_assignment_of_layer {p : Power} (h : p.layer.rank ≤ Layer.expr.rank) :
    p < .assignment := by
  revert h
  cases p <;> decide

/-- Below the power of an assignment everything is read. -/
theorem layer_of_lt_assignment {p : Power} (h : p < .assignment) : p.layer = .expr := by
  cases p with
  | lowest | comma => rfl
  | _ => exact absurd h (by decide)

end Power

/-- An expression of a layer is one of every layer around it. -/
theorem Expr.Derives.of_rank_le {l m : Layer} (h : l.rank ≤ m.rank) {ts : List Token} {e : Expr}
    (he : Expr.Derives m ts e) : Expr.Derives l ts e := by
  by_cases heq : l.rank = m.rank
  · rwa [Layer.rank_injective heq]
  · obtain ⟨l', hnext, hlt, hle⟩ := Layer.exists_next_of_lt (Nat.lt_of_le_of_ne h heq)
    exact .inner hnext (of_rank_le hle he)
termination_by 10 - l.rank
decreasing_by
  have : m.rank ≤ 10 := by cases m <;> decide
  omega

theorem UnaryOp.ofKind?_eq_some_iff {k : Kind} {op : UnaryOp} :
    ofKind? k = some op ↔ k = op.kind := by
  constructor
  · intro h
    unfold ofKind? at h
    split at h <;> cases h <;> rfl
  · rintro rfl
    cases op <;> rfl

/-! ### The table

What the table of the parser has for a kind of token, against the rules of the grammar: the same
operators, in the same layers.  Nothing else is used of the table below, and all of it is checked
kind by kind. -/

namespace Table

/-- What the table has for the operators of a layer. -/
theorem following_of_operator? {l : Layer} {k : Kind} {op : BinaryOp}
    (h : l.operator? k = some op) : standard.following k = some .binary ∧
      BinaryOp.ofKind? k = some op ∧ (standard.power k).rank = l.rank ∧
      l.next? = some (standard.power k).layer ∧ standard.power k < .call := by
  unfold Layer.operator? at h
  split at h <;> cases h <;> exact ⟨rfl, rfl, rfl, rfl, by decide⟩

/-- An operator of a layer goes on with whatever is read in that layer. -/
theorem lt_power_of_operator? {l : Layer} {k : Kind} {op : BinaryOp}
    (h : l.operator? k = some op) {p : Power} (hp : p.layer.rank ≤ l.rank) :
    p < standard.power k := by
  obtain ⟨-, -, -, hnext, -⟩ := following_of_operator? h
  have hlt := Layer.rank_lt_of_next hnext
  refine Nat.lt_of_not_le fun hle ↦ ?_
  have hle' := Power.rank_layer_mono hle
  omega

/-- The operators in front of an expression open one. -/
theorem opening_of_unary (op : UnaryOp) : standard.opening op.kind = some .unary := by
  cases op <;> rfl

/-- Every operator between two expressions belongs to a layer. -/
theorem exists_operator_of_following {k : Kind} (h : standard.following k = some .binary) :
    ∃ (l : Layer) (op : BinaryOp), l.operator? k = some op := by
  cases k with
  | and | or | caret => exact ⟨.logic, _, rfl⟩
  | ampersand | pipe => exact ⟨.bit, _, rfl⟩
  | less | lessEquals | greater | greaterEquals | equals | notEquals => exact ⟨.rel, _, rfl⟩
  | plus | dash => exact ⟨.add, _, rfl⟩
  | star | slash | percent => exact ⟨.mul, _, rfl⟩
  | _ => cases h

/-- Nothing binds more strongly than a call. -/
theorem rank_power_le (k : Kind) : (standard.power k).rank ≤ Layer.call.rank := by
  cases k <;> decide

theorem kind_of_following_assignment {k : Kind} (h : standard.following k = some .assignment) :
    k = .assignment := by
  cases k with
  | assignment => rfl
  | _ => cases h

theorem kind_of_following_call {k : Kind} (h : standard.following k = some .call) :
    k = .openParen := by
  cases k with
  | openParen => rfl
  | _ => cases h

theorem kind_of_opening_grouping {k : Kind} (h : standard.opening k = some .grouping) :
    k = .openParen := by
  cases k with
  | openParen => rfl
  | _ => cases h

/-- No expression goes on with the end of the text. -/
theorem kind_ne_endOfText_of_following {k : Kind} {rule : Following}
    (h : standard.following k = some rule) : k ≠ .endOfText := by
  rintro rfl
  cases h

/-- No expression opens with the end of the text. -/
theorem kind_ne_endOfText_of_opening {k : Kind} {rule : Opening}
    (h : standard.opening k = some rule) : k ≠ .endOfText := by
  rintro rfl
  cases h

end Table

/-! ## Trees without places

The grammar knows no places, so both directions are about the tree after its places have been taken
away. -/

namespace Relabel

@[simp] theorem position_unplaced (p : Position) : unplaced.position p = default := rfl

end Relabel

/-- The expression without places. -/
abbrev Expr.bare (e : Expr) : Expr := e.relabel .unplaced

/-- A variable without its place was one with it. -/
theorem Expr.eq_var_of_bare {e : Expr} {n : Note} {x : String} (h : e.bare = .var n x) :
    ∃ n', e = .var n' x := by
  cases e with
  | var n' y =>
    rw [bare, relabel, Expr.var.injEq] at h
    exact ⟨n', by rw [← h.2]; rfl⟩
  | _ => simp [bare, relabel] at h

/-- Tokens that spell a variable are an identifier in parentheses. -/
theorem Expr.Derives.name_of_var {l : Layer} {ts : List Token} {e : Expr}
    (h : Expr.Derives l ts e) : ∀ {n : Note} {x : String}, e = .var n x → Name ts x := by
  refine Expr.Derives.induct
    (motive := fun _ ts e ↦ ∀ {n : Note} {x : String}, e = .var n x → Name ts x)
    ?inner ?assign ?binary ?unary ?call ?atom ?group h
  case inner => exact fun _ ih ↦ ih
  case atom =>
    rintro _ _ h n x rfl
    cases h with
    | var ht => exact .identifier ht
  case group => exact fun ho ih hc _ _ heq ↦ .group ho (ih heq) hc
  all_goals
    intros
    contradiction

namespace Grammar

open Parse

/-! ## What is read is spelt by the tokens

One lemma for each function of the parser.  The functions call themselves through the parameter
`expr`, for which the lemmas assume what is to be proved; `exprWithin_sound` closes the circle by
induction on the fuel. -/

/-- A token that is read as an expression spells it. -/
theorem atom_of_primary {t : Token} {e : Expr} (h : primary t = .ok e) : Atom t e.bare := by
  unfold primary at h
  split at h
  case h_1 hkind =>
    split at h
    case isTrue hpoint =>
      split at h
      case h_1 x hx =>
        cases h
        exact .float hkind hpoint hx
      case h_2 => cases h
    case isFalse hpoint =>
      split at h
      case h_1 k hk =>
        cases h
        exact .int hkind hpoint hk
      case h_2 => cases h
  case h_2 hkind =>
    cases h
    exact .var hkind
  case h_3 hkind =>
    cases h
    exact .string hkind
  case h_4 hkind =>
    cases h
    exact .true hkind
  case h_5 hkind =>
    cases h
    exact .false hkind
  case h_6 => cases h

/-- The action reads expressions with power `p`, and stops at a token that does not bind more
strongly than that. -/
def ReadsExpr (p : Power) (m : Parse Expr) : Prop :=
  ∀ {c d : Cursor} {e : Expr}, c.Closed → m c = .ok e d →
    ∃ ts, c.Reads ts d ∧ Expr.Derives p.layer ts e.bare ∧
      (Table.standard.power d.kind).rank ≤ p.rank

section Sound

variable {expr : Power → Parse Expr} (hexpr : ∀ p, ReadsExpr p (expr p)) {c d : Cursor} {e : Expr}

include hexpr

/-- The opening of an expression is in the layer of unary operators or further inside. -/
theorem opening_sound (hc : c.Closed) {rule : Opening}
    (hrule : Table.standard.opening c.kind = some rule) (h : opening expr rule c = .ok e d) :
    ∃ ts l, c.Reads ts d ∧ Expr.Derives l ts e.bare ∧ Layer.unary.rank ≤ l.rank ∧
      (Table.standard.power d.kind).rank ≤ l.rank := by
  have hread := hc.reads_next (Table.kind_ne_endOfText_of_opening hrule)
  cases rule with
  | primary =>
    simp only [opening, bind_eq_ok, advance_apply, EStateM.Result.ok.injEq] at h
    obtain ⟨_, _, ⟨rfl, rfl⟩, h⟩ := h
    cases he' : Grammar.primary c.current with
    | ok e' =>
      rw [he'] at h
      obtain ⟨rfl, rfl⟩ := pure_eq_ok.1 h
      exact ⟨_, .primary, hread, .atom (atom_of_primary he'), by decide,
        Nat.le_succ_of_le (Table.rank_power_le _)⟩
    | error x =>
      rw [he'] at h
      exact (fail_eq_ok.1 h).elim
  | unary =>
    simp only [opening, bind_eq_ok, advance_apply, EStateM.Result.ok.injEq] at h
    obtain ⟨_, _, ⟨rfl, rfl⟩, h⟩ := h
    cases hop : UnaryOp.ofKind? c.current.kind with
    | none =>
      rw [hop] at h
      exact (fail_eq_ok.1 h).elim
    | some op =>
      rw [hop] at h
      obtain ⟨e', _, he', h⟩ := bind_eq_ok.1 h
      obtain ⟨rfl, rfl⟩ := pure_eq_ok.1 h
      obtain ⟨ts, hts, hder, hnext⟩ := hexpr .unary (hc.of_reads hread) he'
      exact ⟨_, .unary, hread.trans hts, .unary (UnaryOp.ofKind?_eq_some_iff.1 hop) hder,
        Nat.le_refl _, hnext⟩
  | grouping =>
    have hopen := Table.kind_of_opening_grouping hrule
    simp only [opening, bind_eq_ok, advance_apply, EStateM.Result.ok.injEq,
      expectDetailed_eq_ok, pure_eq_ok] at h
    obtain ⟨_, _, ⟨rfl, rfl⟩, e', c', he', _, _, ⟨hclose, rfl, rfl⟩, rfl, rfl⟩ := h
    -- inside parentheses any expression may stand, and outside they bind as a variable does
    obtain ⟨ts, hts, hder, -⟩ := hexpr .lowest (hc.of_reads hread) he'
    have hlast := ((hc.of_reads hread).of_reads hts).reads_next (by rw [hclose]; decide)
    exact ⟨_, .primary, hread.trans (hts.trans hlast), .group hopen hder hclose, by decide,
      Nat.le_succ_of_le (Table.rank_power_le _)⟩

/-- The arguments of a call are spelt with commas between them. -/
theorem actuals_sound (n : Nat) : Sound (actuals expr n) fun ts args ↦
    ∃ es, Commas (Expr.Derives .expr) ts es ∧ args.map Expr.bare = es.map (.actual .blank) := by
  induction n with
  | zero => exact fun _ _ _ _ h ↦ (throw_eq_ok.1 h).elim
  | succ n ih =>
    intro c d args hc h
    simp only [actuals, bind_eq_ok, kind_apply, EStateM.Result.ok.injEq] at h
    obtain ⟨e, c₁, he, _, _, ⟨rfl, rfl⟩, h⟩ := h
    obtain ⟨ts, hts, hder, -⟩ := hexpr .lowest hc he
    have hc₁ := hc.of_reads hts
    by_cases hcomma : c₁.kind = .comma
    · simp only [if_pos hcomma, bind_eq_ok, advance_apply, EStateM.Result.ok.injEq,
        pure_eq_ok] at h
      obtain ⟨_, _, ⟨rfl, rfl⟩, args, c₂, hargs, rfl, rfl⟩ := h
      have hread := hc₁.reads_next (by rw [hcomma]; decide)
      obtain ⟨us, hus, es, hes, hbare⟩ := ih (hc₁.of_reads hread) hargs
      exact ⟨_, hts.trans (hread.trans hus), e.bare :: es, .more hder hcomma hes,
        by rw [List.map_cons, List.map_cons, hbare]; rfl⟩
    · rw [if_neg hcomma, pure_eq_ok] at h
      obtain ⟨rfl, rfl⟩ := h
      exact ⟨ts, hts, [e.bare], .one hder, rfl⟩

theorem optionalActuals_sound {n : Nat} {args : List Expr} (hc : c.Closed)
    (h : (if c.kind = .closeParen then pure [] else actuals expr n) c = .ok args d) :
    ∃ ts, c.Reads ts d ∧ ∃ es, Optional (Commas (Expr.Derives .expr)) [] ts es ∧
      args.map Expr.bare = es.map (.actual .blank) := by
  have hsound : Sound (actuals expr n) fun ts args ↦ ∃ es,
      Optional (Commas (Expr.Derives .expr)) [] ts es ∧
        args.map Expr.bare = es.map (.actual .blank) :=
    (actuals_sound hexpr n).imp fun ⟨es, hes, hbare⟩ ↦ ⟨es, .present hes, hbare⟩
  exact hsound.ite_pure ⟨[], .absent, rfl⟩ hc h

/-- An expression that goes on is in the layer of the operator or rule by which it does, if that is
strong enough for what came before. -/
theorem following_sound {left : Expr} {l : Layer} {ts : List Token}
    (hleft : Expr.Derives l ts left.bare) (hc : c.Closed)
    (hfollow : (Table.standard.power c.kind).rank ≤ l.rank) {rule : Following}
    (hrule : Table.standard.following c.kind = some rule) {n : Nat}
    (h : following expr n left (Table.standard.power c.kind) rule c = .ok e d) :
    ∃ us l', us ≠ [] ∧ c.Reads us d ∧ Expr.Derives l' (ts ++ us) e.bare ∧
      (Table.standard.power d.kind).rank ≤ l'.rank ∧
      ∀ p, p < Table.standard.power c.kind → p.layer.rank ≤ l'.rank := by
  have hread := hc.reads_next (Table.kind_ne_endOfText_of_following hrule)
  have hc' := hc.of_reads hread
  cases rule with
  | binary =>
    obtain ⟨l', op, hop⟩ := Table.exists_operator_of_following hrule
    obtain ⟨-, hkind, hrank, hnext, -⟩ := Table.following_of_operator? hop
    have hkind' : BinaryOp.ofKind? c.current.kind = some op := hkind
    simp only [following, bind_eq_ok, advance_apply, EStateM.Result.ok.injEq] at h
    obtain ⟨_, _, ⟨rfl, rfl⟩, h⟩ := h
    simp only [hkind', bind_eq_ok, pure_eq_ok] at h
    obtain ⟨right, _, hright, rfl, rfl⟩ := h
    obtain ⟨us, hus, hder, hpower⟩ := hexpr _ hc' hright
    -- by the invariant the left operand is in the layer of the operator
    refine ⟨_, l', List.cons_ne_nil _ _, hread.trans hus,
      .binary hnext (hleft.of_rank_le ?_) hop hder, ?_, ?_⟩
    · rwa [← hrank]
    · rwa [← hrank]
    · intro p hp
      exact Power.rank_layer_le_of_lt (hrank ▸ hp)
  | assignment =>
    have hkind := Table.kind_of_following_assignment hrule
    cases left with
    | var note x =>
      simp only [following, bind_eq_ok, advance_apply, EStateM.Result.ok.injEq, pure_eq_ok] at h
      obtain ⟨_, _, ⟨rfl, rfl⟩, value, _, hvalue, rfl, rfl⟩ := h
      obtain ⟨us, hus, hder, hpower⟩ := hexpr .comma hc' hvalue
      refine ⟨_, .expr, List.cons_ne_nil _ _, hread.trans hus,
        .assign (hleft.name_of_var rfl) hkind hder, hpower, ?_⟩
      intro p hp
      rw [hkind] at hp
      exact Nat.le_of_eq (congrArg Layer.rank (Power.layer_of_lt_assignment hp))
    | _ => exact (unexpected_eq_ok.1 h).elim
  | call =>
    have hkind := Table.kind_of_following_call hrule
    cases left with
    | var note x =>
      simp only [following, bind_eq_ok, ite_bind_eq_ok, advance_apply, EStateM.Result.ok.injEq,
        kind_apply, expectDetailed_eq_ok, pure_eq_ok] at h
      obtain ⟨_, _, ⟨rfl, rfl⟩, _, _, ⟨rfl, rfl⟩, args, c₁, hargs, _, _, ⟨hclose, rfl, rfl⟩, rfl,
        rfl⟩ := h
      obtain ⟨us, hus, es, hes, hbare⟩ := optionalActuals_sound hexpr hc' hargs
      have hlast := (hc'.of_reads hus).reads_next (by rw [hclose]; decide)
      refine ⟨_, .call, List.cons_ne_nil _ _, hread.trans (hus.trans hlast), ?_, ?_, ?_⟩
      · rw [Expr.bare, Expr.relabel, Expr.relabelAll_eq_map, hbare]
        exact .call (hleft.name_of_var rfl) hkind hes hclose
      · exact Table.rank_power_le _
      · intro p _
        exact Nat.le_trans p.rank_layer_le_unary (by decide)
    | _ => exact (unexpected_eq_ok.1 h).elim

/-! ### The loop

The invariant: `left` is an expression of some layer `l`, spelt by what was read, and the current
token binds no more strongly than `l` allows.  A round makes `left` larger, and `l` becomes the
layer of the operator that was read.  The token behind it cannot be stronger, since then the right
operand would have gone on with it. -/

/-- The loop goes on as long as the operators are strong enough. -/
theorem climb_sound (p : Power) : ∀ (k : Nat) {left : Expr} {l : Layer} {ts : List Token}
    {c d : Cursor} {e : Expr}, Expr.Derives l ts left.bare → c.Closed →
    (Table.standard.power c.kind).rank ≤ l.rank → p.layer.rank ≤ l.rank →
    climb .standard expr p k left c = .ok e d →
    ∃ us, c.Reads us d ∧ Expr.Derives p.layer (ts ++ us) e.bare ∧
      (Table.standard.power d.kind).rank ≤ p.rank := by
  intro k
  induction k with
  | zero => exact fun _ _ _ _ h ↦ (throw_eq_ok.1 h).elim
  | succ k ih =>
    intro left l ts c d e hleft hc hfollow hlayer h
    simp only [climb, bind_eq_ok, current_apply, EStateM.Result.ok.injEq] at h
    obtain ⟨_, _, ⟨rfl, rfl⟩, h⟩ := h
    by_cases hp : p < Table.standard.power c.current.kind
    · rw [if_pos hp] at h
      cases hrule : Table.standard.following c.current.kind with
      | none =>
        rw [hrule] at h
        exact (fail_eq_ok.1 h).elim
      | some rule =>
        rw [hrule] at h
        obtain ⟨left', c₁, hleft', h⟩ := bind_eq_ok.1 h
        -- the step gives the invariant for the new operand, in the layer of the operator
        obtain ⟨us, l', -, hus, hder, hfollow', hlayer'⟩ :=
          following_sound hexpr hleft hc hfollow hrule hleft'
        obtain ⟨vs, hvs, hder', hpower⟩ :=
          ih hder (hc.of_reads hus) hfollow' (hlayer' p hp) h
        exact ⟨us ++ vs, hus.trans hvs, List.append_assoc ts us vs ▸ hder', hpower⟩
    · rw [if_neg hp, pure_eq_ok] at h
      obtain ⟨rfl, rfl⟩ := h
      -- the loop ends here: nothing more is read, and the operand is in the layer that was asked
      -- for
      refine ⟨[], .nil, ?_, Nat.le_of_not_lt hp⟩
      rw [List.append_nil]
      exact hleft.of_rank_le hlayer

end Sound

/-- **An expression that is read is spelt by the tokens that were read.** -/
theorem exprWithin_sound (n : Nat) : ∀ p, ReadsExpr p (exprWithin .standard n p) := by
  induction n with
  | zero => exact fun _ _ _ _ _ h ↦ (throw_eq_ok.1 h).elim
  | succ n ih =>
    intro p c d e hc h
    simp only [exprWithin, bind_eq_ok, current_apply, EStateM.Result.ok.injEq] at h
    obtain ⟨_, _, ⟨rfl, rfl⟩, h⟩ := h
    cases hrule : Table.standard.opening c.current.kind with
    | none =>
      rw [hrule] at h
      exact (fail_eq_ok.1 h).elim
    | some rule =>
      rw [hrule] at h
      obtain ⟨left, c₁, hleft, h⟩ := bind_eq_ok.1 h
      obtain ⟨ts, l, hts, hder, hunary, hfollow⟩ := opening_sound ih hc hrule hleft
      obtain ⟨us, hus, hder', hpower⟩ := climb_sound ih p (n + 1) hder (hc.of_reads hts) hfollow
        (Nat.le_trans p.rank_layer_le_unary hunary) h
      exact ⟨ts ++ us, hts.trans hus, hder', hpower⟩

/-! ## What the tokens spell is read

Fuel is no concern for tokens that spell something: `n` rules are enough where fewer than `n` tokens
follow the current one, as each rule reads a token before it is applied again. -/

/-- After the opening of an expression the loop is run. -/
theorem exprWithin_eq_climb {n : Nat} {p : Power} {c d : Cursor} {rule : Opening} {left : Expr}
    (hrule : Table.standard.opening c.kind = some rule)
    (h : opening (exprWithin .standard n) rule c = .ok left d) :
    exprWithin .standard (n + 1) p c
      = climb .standard (exprWithin .standard n) p (n + 1) left d := by
  have hrule' : Table.standard.opening c.current.kind = some rule := hrule
  rw [exprWithin, bind_of_ok (current_apply c)]
  simp only [hrule']
  rw [bind_of_ok h]

/-- One step of the loop. -/
theorem climb_eq_climb {expr : Power → Parse Expr} {k : Nat} {p : Power} {c d : Cursor}
    {rule : Following} {left left' : Expr} (hp : p < Table.standard.power c.kind)
    (hrule : Table.standard.following c.kind = some rule)
    (h : following expr k left (Table.standard.power c.kind) rule c = .ok left' d) :
    climb .standard expr p (k + 1) left c = climb .standard expr p k left' d := by
  have hp' : p < Table.standard.power c.current.kind := hp
  have hrule' : Table.standard.following c.current.kind = some rule := hrule
  rw [climb, bind_of_ok (current_apply c), if_pos hp']
  simp only [hrule']
  exact bind_of_ok h _

/-- The loop ends at a token that is not strong enough. -/
theorem climb_eq_ok {expr : Power → Parse Expr} {k : Nat} {p : Power} {c : Cursor} {left : Expr}
    (hk : c.rest.length < k) (hp : ¬ p < Table.standard.power c.kind) :
    climb .standard expr p k left c = .ok left c := by
  obtain ⟨k, rfl⟩ := Nat.exists_eq_add_one.2 (Nat.zero_lt_of_lt hk)
  have hp' : ¬ p < Table.standard.power c.current.kind := hp
  rw [climb, bind_of_ok (current_apply c), if_neg hp']
  rfl

/-- A token that spells an expression is read as that. -/
theorem primary_of_atom {t : Token} {e : Expr} (h : Atom t e) :
    Table.standard.opening t.kind = some .primary ∧ ∃ e', primary t = .ok e' ∧ e'.bare = e := by
  cases h with
  | @int k ht hpoint hk =>
    exact ⟨by rw [ht]; rfl, .int ⟨t.start, none⟩ k, by simp [primary, ht, hpoint, hk], rfl⟩
  | @float x ht hpoint hx =>
    exact ⟨by rw [ht]; rfl, .float ⟨t.start, none⟩ x, by simp [primary, ht, hpoint, hx], rfl⟩
  | string ht =>
    exact ⟨by rw [ht]; rfl, .string ⟨t.start, none⟩ t.value, by simp [primary, ht], rfl⟩
  | true ht => exact ⟨by rw [ht]; rfl, .bool ⟨t.start, none⟩ true, by simp [primary, ht], rfl⟩
  | false ht => exact ⟨by rw [ht]; rfl, .bool ⟨t.start, none⟩ false, by simp [primary, ht], rfl⟩
  | var ht => exact ⟨by rw [ht]; rfl, .var ⟨t.start, none⟩ t.value, by simp [primary, ht], rfl⟩

end Grammar

open Grammar Parse

/-! ### Complete layers

`Layer.Complete` is the statement for the induction.  It does not say that the tokens are read as an
expression, but that the loop, with fuel enough, comes to their end with the tree as its operand and
fuel to go on.  For a left operand this is what is needed, as the loop that has read it is the one
that reads the operator.  Where the token behind is too weak the loop ends, and then the expression
is read (`exprWithin_eq`). -/

/-- The first token opens an expression. -/
abbrev Syntax.Opens (ts : List Token) : Prop := Starts (Table.standard.opening · ≠ none) ts

theorem Syntax.Name.opens {ts : List Token} {x : String} (h : Name ts x) : Opens ts := by
  cases h with
  | identifier ht => exact .cons (by rw [ht]; nofun) _
  | group ho _ _ => exact .cons (by rw [ho]; nofun) _

/-- Where the tokens stand between two cursors, the loop for expressions comes from one to the other
with the expression, whichever power it is run with that lets it go on so far. -/
def Syntax.Layer.Complete (l : Layer) (ts : List Token) (e : Expr) : Prop :=
  ∀ ⦃n : Nat⦄ ⦃p : Power⦄ ⦃c d : Cursor⦄, c.Reads ts d → c.rest.length ≤ n → p < .call →
    p.layer.rank ≤ l.rank → (Table.standard.power d.kind).rank ≤ l.rank →
    ∃ e' k, e'.bare = e ∧ d.rest.length < k ∧
      exprWithin .standard (n + 1) p c = climb .standard (exprWithin .standard n) p k e' d

namespace Syntax.Layer.Complete

theorem of_rank_le {l m : Layer} (hlm : l.rank ≤ m.rank) {ts : List Token} {e : Expr}
    (h : m.Complete ts e) : l.Complete ts e :=
  fun _ _ _ _ hr hn hp hlayer hfollow ↦
    h hr hn hp (Nat.le_trans hlayer hlm) (Nat.le_trans hfollow hlm)

/-- The expression is read, up to a token that does not bind more strongly than asked for. -/
theorem exprWithin_eq {p : Power} {ts : List Token} {e : Expr} (h : p.layer.Complete ts e)
    (hp : p < .call) {n : Nat} {c d : Cursor} (hr : c.Reads ts d) (hn : c.rest.length < n)
    (hpower : (Table.standard.power d.kind).rank ≤ p.rank) :
    ∃ e', e'.bare = e ∧ exprWithin .standard n p c = .ok e' d := by
  obtain ⟨n, rfl⟩ := Nat.exists_eq_add_one.2 (Nat.zero_lt_of_lt hn)
  obtain ⟨e', k, he', hk, heq⟩ := h hr (Nat.le_of_lt_succ hn) hp (Nat.le_refl _)
    (Nat.le_trans hpower (Power.rank_le_layer hp))
  exact ⟨e', he', by rw [heq, climb_eq_ok hk (Nat.not_lt_of_le hpower)]⟩

/-! ### The rules of the grammar

One lemma for each rule.  A rule whose first part is an expression takes up the loop of that part in
front of the operator, and runs it for one more round. -/

/-- A token that is an expression is all that is read before the loop. -/
theorem atom {t : Token} {e : Expr} (h : Atom t e) : Layer.primary.Complete [t] e := by
  intro n p c d hr hn _ _ _
  cases hr with
  | cons hc hr =>
    cases hr
    obtain ⟨hrule, e', hprimary, he'⟩ := primary_of_atom h
    have hlength := Cursor.length_rest_next hc
    refine ⟨e', n + 1, he', by omega, exprWithin_eq_climb hrule ?_⟩
    rw [opening, bind_of_ok (advance_apply c)]
    simp only [hprimary]
    rfl

/-- What is in parentheses is read with the lowest power, up to the closing one. -/
theorem group {o c : Token} {ts : List Token} {e : Expr} (ho : o.kind = .openParen)
    (h : Layer.expr.Complete ts e) (hc : c.kind = .closeParen) :
    Layer.primary.Complete (o :: (ts ++ [c])) e := by
  intro n p c₀ d hr hn _ _ _
  cases hr with
  | cons hc₀ hr =>
    obtain ⟨c₁, hr₁, rfl, ⟨⟩, hle, hlt⟩ := hr.split_cons
    have hlength := Cursor.length_rest_next hc₀
    have hkind₀ : c₀.kind = .openParen := ho
    have hkind : c₁.kind = .closeParen := hc
    have hrule : Table.standard.opening c₀.kind = some .grouping := by rw [hkind₀]; rfl
    obtain ⟨e', he', heq⟩ := exprWithin_eq (p := .lowest) h (by decide) hr₁ (n := n) (by omega)
      (by rw [hkind]; decide)
    refine ⟨e', n + 1, he', by omega, exprWithin_eq_climb hrule ?_⟩
    rw [opening, bind_of_ok (advance_apply c₀), bind_of_ok heq,
      bind_of_ok (expectDetailed_of_kind hkind _)]
    rfl

/-- An identifier in parentheses is read as a variable. -/
theorem name {ts : List Token} {x : String} (h : Name ts x) :
    Layer.primary.Complete ts (.var .blank x) := by
  induction h with
  | identifier ht => exact atom (.var ht)
  | group ho _ hc ih => exact group ho (of_rank_le (by decide) ih) hc

/-- The operand of a unary operator is read with the power of these. -/
theorem unary {t : Token} {ts : List Token} {e : Expr} {op : UnaryOp}
    (ht : t.kind = op.kind) (h : Layer.unary.Complete ts e) :
    Layer.unary.Complete (t :: ts) (.unary .blank op e) := by
  intro n p c d hr hn _ _ hfollow
  cases hr with
  | cons hc hr =>
    have hop := UnaryOp.ofKind?_eq_some_iff.2 ht
    have hrule : Table.standard.opening c.kind = some .unary := by
      rw [Cursor.kind, ht, Table.opening_of_unary]
    have hlength := Cursor.length_rest_next hc
    have hlength' := hr.length_rest_le
    obtain ⟨e', rfl, heq⟩ := exprWithin_eq (p := .unary) h (by decide) hr (n := n) (by omega)
      hfollow
    refine ⟨.unary ⟨c.current.start, none⟩ op e', n + 1, rfl, by omega,
      exprWithin_eq_climb hrule ?_⟩
    rw [opening, bind_of_ok (advance_apply c)]
    simp only [hop]
    rw [bind_of_ok heq]
    rfl

/-- The loop comes in front of the operator with the left operand, and goes on. -/
theorem binary {l : Layer} {ts us : List Token} {t : Token} {e f : Expr} {op : BinaryOp}
    (hop : l.operator? t.kind = some op) (he : l.Complete ts e)
    (hf : (Table.standard.power t.kind).layer.Complete us f) :
    l.Complete (ts ++ t :: us) (.binary .blank e op f) := by
  obtain ⟨hrule, hkind, hrank, -, hcall⟩ := Table.following_of_operator? hop
  intro n p c d hr hn hp hlayer hfollow
  obtain ⟨c₁, hr₁, rfl, hr₂, hle, hlt⟩ := hr.split_cons
  have hle' := hr₂.length_rest_le
  obtain ⟨e', k, rfl, hk, heq⟩ := he hr₁ hn hp hlayer (Nat.le_of_eq hrank)
  obtain ⟨f', rfl, heq'⟩ := exprWithin_eq hf hcall hr₂ (n := n) (by omega)
    (Nat.le_trans hfollow (Nat.le_of_eq hrank.symm))
  obtain ⟨k, rfl⟩ := Nat.exists_eq_add_one.2 (Nat.zero_lt_of_lt hk)
  refine ⟨.binary ⟨e'.position, none⟩ e' op f', k, rfl, by omega, ?_⟩
  rw [heq]
  refine climb_eq_climb (Table.lt_power_of_operator? hop hlayer) hrule ?_
  rw [following, bind_of_ok (advance_apply c₁)]
  simp only [hkind]
  exact bind_of_ok heq' _

/-- An assignment goes on to the right, so its value is read with a power below its own. -/
theorem assign {ts us : List Token} {t : Token} {x : String} {e : Expr} (hx : Name ts x)
    (ht : t.kind = .assignment) (he : Layer.expr.Complete us e) :
    Layer.expr.Complete (ts ++ t :: us) (.assign .blank x e) := by
  intro n p c d hr hn hp hlayer hfollow
  obtain ⟨c₁, hr₁, rfl, hr₂, hle, hlt⟩ := hr.split_cons
  have hle' := hr₂.length_rest_le
  have hkind : c₁.kind = .assignment := ht
  have hrule : Table.standard.following c₁.kind = some .assignment := by rw [hkind]; rfl
  obtain ⟨v, k, hv, hk, heq⟩ := name hx hr₁ hn hp (Nat.le_trans hlayer (by decide))
    (Nat.le_succ_of_le (Table.rank_power_le _))
  obtain ⟨note, rfl⟩ := Expr.eq_var_of_bare hv
  obtain ⟨e', rfl, heq'⟩ := exprWithin_eq (p := .comma) he (by decide) hr₂ (n := n) (by omega)
    hfollow
  obtain ⟨k, rfl⟩ := Nat.exists_eq_add_one.2 (Nat.zero_lt_of_lt hk)
  refine ⟨.assign ⟨note.position, none⟩ x e', k, rfl, by omega, ?_⟩
  rw [heq]
  -- the loop is at the sign and goes on, since assignments are asked for
  refine climb_eq_climb ?_ hrule ?_
  · rw [hkind]
    exact Power.lt_assignment_of_layer hlayer
  · rw [following, bind_of_ok (advance_apply c₁), bind_of_ok heq']
    rfl

/-- The arguments of a call are read, up to a token that is no comma and no operator. -/
theorem actuals {ts : List Token} {es : List Expr} (h : Commas Layer.expr.Complete ts es) :
    ∀ {n k : Nat} {c d : Cursor}, c.Reads ts d → c.rest.length < n → c.rest.length < k →
      d.kind = .closeParen →
      ∃ args, args.map Expr.bare = es.map (.actual .blank) ∧
        Grammar.actuals (exprWithin .standard n) k c = .ok args d := by
  induction h with
  | one he =>
    intro n k c d hr hn hk hclose
    obtain ⟨k, rfl⟩ := Nat.exists_eq_add_one.2 (Nat.zero_lt_of_lt hk)
    obtain ⟨e', rfl, heq⟩ := exprWithin_eq (p := .lowest) he (by decide) hr hn
      (by rw [hclose]; decide)
    refine ⟨[.actual ⟨e'.position, none⟩ e'], rfl, ?_⟩
    rw [Grammar.actuals, bind_of_ok heq, bind_of_ok (kind_apply d),
      if_neg (by rw [hclose]; decide)]
    rfl
  | @more ts us comma e es he hcomma _ ih =>
    intro n k c d hr hn hk hclose
    obtain ⟨k, rfl⟩ := Nat.exists_eq_add_one.2 (Nat.zero_lt_of_lt hk)
    obtain ⟨c₁, hr₁, rfl, hr₂, hle, hlt⟩ := hr.split_cons
    have hkind : c₁.kind = .comma := hcomma
    obtain ⟨e', rfl, heq⟩ := exprWithin_eq (p := .lowest) he (by decide) hr₁ hn
      (by rw [hkind]; decide)
    obtain ⟨args, hargs, heq'⟩ := ih hr₂ (n := n) (k := k) (by omega) (by omega) hclose
    refine ⟨.actual ⟨e'.position, none⟩ e' :: args, ?_, ?_⟩
    · rw [List.map_cons, List.map_cons, hargs]
      rfl
    · rw [Grammar.actuals, bind_of_ok heq, bind_of_ok (kind_apply c₁), if_pos hkind,
        bind_of_ok (advance_apply c₁), bind_of_ok heq']
      rfl

theorem optionalActuals {ts : List Token} {es : List Expr}
    (h : Optional (Commas fun ts e ↦ Opens ts ∧ Layer.expr.Complete ts e) [] ts es) {n k : Nat}
    {c d : Cursor} (hr : c.Reads ts d) (hn : c.rest.length < n) (hk : c.rest.length < k)
    (hd : d.kind = .closeParen) :
    ∃ args, args.map Expr.bare = es.map (.actual .blank) ∧
      (if c.kind = .closeParen then pure [] else Grammar.actuals (exprWithin .standard n) k) c
        = .ok args d := by
  cases h with
  | absent =>
    cases hr
    exact ⟨[], rfl, by rw [if_pos hd]; rfl⟩
  | present h =>
    have hopen : c.kind ≠ .closeParen := by
      intro hkind
      have hstart := Cursor.kind_of_starts (h.starts fun h ↦ h.1) hr
      rw [hkind] at hstart
      exact hstart rfl
    rw [if_neg hopen]
    exact actuals (h.imp fun h ↦ h.2) hr hn hk hd

/-- The arguments of a call are read with their parentheses. -/
theorem following_call {us : List Token} {c : Token} {args : List Expr}
    (hargs : Optional (Commas fun ts e ↦ Opens ts ∧ Layer.expr.Complete ts e) [] us args)
    (hc : c.kind = .closeParen) {n k : Nat} {c₁ d : Cursor} (hr : c₁.next.Reads (us ++ [c]) d)
    (hn : c₁.next.rest.length < n) (hk : c₁.next.rest.length < k) (note : Note) (f : String)
    (p : Power) :
    ∃ args', args'.map Expr.bare = args.map (.actual .blank) ∧
      following (exprWithin .standard n) k (.var note f) p .call c₁
        = .ok (.call ⟨note.position, none⟩ f args') d := by
  obtain ⟨c₂, hr₂, rfl, ⟨⟩, -, -⟩ := hr.split_cons
  obtain ⟨args', hargs', heq⟩ := optionalActuals hargs hr₂ hn hk hc
  refine ⟨args', hargs', ?_⟩
  rw [following, bind_of_ok (advance_apply c₁), bind_of_ok (kind_apply _), ite_bind_of_ok heq]
  exact bind_of_ok (expectDetailed_of_kind hc _) _

theorem call {ts us : List Token} {o c : Token} {f : String} {args : List Expr} (hf : Name ts f)
    (ho : o.kind = .openParen)
    (hargs : Optional (Commas fun ts e ↦ Opens ts ∧ Layer.expr.Complete ts e) [] us args)
    (hc : c.kind = .closeParen) :
    Layer.call.Complete (ts ++ o :: (us ++ [c])) (.call .blank f (args.map (.actual .blank))) := by
  intro n p c₀ d hr hn hp hlayer hfollow
  obtain ⟨c₁, hr₁, rfl, hr₂, hle, hlt⟩ := hr.split_cons
  have hle' := hr₂.length_rest_le
  have hkind : c₁.kind = .openParen := ho
  have hrule : Table.standard.following c₁.kind = some .call := by rw [hkind]; rfl
  obtain ⟨v, k, hv, hk, heq⟩ := name hf hr₁ hn hp (Nat.le_trans hlayer (by decide))
    (Nat.le_succ_of_le (Table.rank_power_le _))
  obtain ⟨note, rfl⟩ := Expr.eq_var_of_bare hv
  obtain ⟨k, rfl⟩ := Nat.exists_eq_add_one.2 (Nat.zero_lt_of_lt hk)
  obtain ⟨args', hargs', heq'⟩ := following_call hargs hc hr₂ (n := n) (k := k) (by omega)
    (by omega) note f (Table.standard.power c₁.kind)
  refine ⟨.call ⟨note.position, none⟩ f args', k, ?_, by omega, ?_⟩
  · rw [Expr.bare, Expr.relabel, Expr.relabelAll_eq_map, ← hargs']
    rfl
  · rw [heq]
    refine climb_eq_climb ?_ hrule heq'
    rwa [hkind]

end Syntax.Layer.Complete

/-- **An expression that the tokens spell is read**, and its first token opens it. -/
theorem Expr.Derives.complete {l : Layer} {ts : List Token} {e : Expr} (h : Expr.Derives l ts e) :
    Opens ts ∧ l.Complete ts e := by
  refine Expr.Derives.induct (motive := fun l ts e ↦ Opens ts ∧ l.Complete ts e)
    ?inner ?assign ?binary ?unary ?call ?atom ?group h
  case inner =>
    intro l l' ts e hl ih
    exact ⟨ih.1, Layer.Complete.of_rank_le (Nat.le_of_lt (Layer.rank_lt_of_next hl)) ih.2⟩
  case assign =>
    intro ts us t x e hx ht ih
    exact ⟨hx.opens.append _, Layer.Complete.assign hx ht ih.2⟩
  case binary =>
    intro l l' ts us t e f op hl ihe hop ihf
    obtain ⟨-, -, -, hnext, -⟩ := Table.following_of_operator? hop
    obtain rfl := Option.some_inj.1 (hl.symm.trans hnext)
    exact ⟨ihe.1.append _, Layer.Complete.binary hop ihe.2 ihf.2⟩
  case unary =>
    intro ts t e op ht ih
    exact ⟨.cons (by rw [ht, Table.opening_of_unary]; nofun) ts, Layer.Complete.unary ht ih.2⟩
  case call =>
    intro ts us o c f args hf ho ih hc
    exact ⟨hf.opens.append _, Layer.Complete.call hf ho ih hc⟩
  case atom =>
    intro t e h
    exact ⟨.cons (by rw [(primary_of_atom h).1]; nofun) [], Layer.Complete.atom h⟩
  case group =>
    intro o c ts e ho ih hc
    exact ⟨.cons (by rw [ho]; nofun) _, Layer.Complete.group ho ih.2 hc⟩

end Typewright
