import Typewright.Proofs.Decision
import Typewright.Proofs.ExprParsing

/-!
# Decisions about expressions

`Grammar.decidesExpr`: on tokens that end with the end of the text, an expression is read, or a
token is rejected and the tokens before it can be completed to an expression.

The loop for operators makes this less than obvious.  It looks at the tree that it has read so far
and not at its tokens, to see that only a variable is assigned to or called, and it may have come to
an operator that is too weak for the operand it is in but not for the expression around that.  What
it has read so far is an expression all the same, in a layer that the next operator fits
(`Grammar.climb_decides`), so it can stop before any token that it rejects.

## The two inductions

Expressions contain expressions, and an expression is a loop.  The outer induction is on a bound for
the number of tokens ahead: `DecidesExpr N` is about lists of fewer than `N` tokens, and a rule of
the grammar moves over a token before it reads an operand, so the operand has fewer tokens ahead of
it.  The inner induction is for the loop, on the number of tokens that it has ahead in each round.

Nothing is said about fuel by induction.  Each lemma has the fuel as a parameter and says for how
many tokens it is enough, so that the fuel of a rule and the number of its tokens grow together.
-/

set_option autoImplicit false

namespace Typewright

open Syntax Parse

/-- There is an expression in every layer: a variable. -/
theorem Expr.exists_spells (l : Layer) : ∃ ts, Spells (Expr.Derives l) ts := by
  have hvar : Expr.Derives .primary [⟨.identifier, "", default⟩] (.var .blank "") :=
    .atom (.var rfl)
  exact ⟨_, _, hvar.of_rank_le (by cases l <;> decide)⟩

/-- Every operator that can open an expression is one. -/
theorem Table.exists_unaryOp_of_opening {k : Kind} (h : standard.opening k = some .unary) :
    ∃ op : UnaryOp, k = op.kind := by
  cases k with
  | dash => exact ⟨.neg, rfl⟩
  | not => exact ⟨.not, rfl⟩
  | tilde => exact ⟨.bitNot, rfl⟩
  | _ => cases h

namespace Grammar

/-! ## Parts of an expression

A part is decided about if expressions are, on as many tokens as there are behind the first token of
the part.  This is the hypothesis `hexpr`. -/

/-- A token that is not read as an expression is to blame for that. -/
theorem blames_of_primary {t : Token} {x : Diagnostic} (h : primary t = .error x) : x.Blames t := by
  unfold primary at h
  split at h
  case h_1 =>
    split at h
    all_goals
      split at h
      · cases h
      · cases h
        exact .malformedNumber
  case h_6 =>
    cases h
    exact .unexpected
  all_goals cases h

/-- Expressions are decided about on fewer than `N` tokens. -/
def DecidesExpr (N : Nat) : Prop :=
  ∀ ⦃ws : List Token⦄, ws.length < N → Ends ws → ∀ p : Power,
    Decides id (fun n ↦ exprWithin .standard n p) (Spells (Expr.Derives p.layer)) ws

section Decides

variable {N : Nat} (hexpr : DecidesExpr N) {t : Token} {vs : List Token}

include hexpr

/-- An operator and the operand after it are decided about. -/
theorem operand_decides (hends : Ends (t :: vs)) (hlen : vs.length < N) (ht : t.kind ≠ .endOfText)
    (p : Power) (f : Expr → Expr) :
    Decides (· + 1) (fun n ↦ do
      let _ ← advance
      return f (← exprWithin .standard n p))
      (Then (· = [t]) (Spells (Expr.Derives p.layer))) (t :: vs) :=
  .advance ht hends fun hvs hends' ↦ (hexpr (hvs ▸ hlen) hends' p).map f

/-- The opening of an expression is decided about. -/
theorem opening_decides (hends : Ends (t :: vs)) (hlen : vs.length < N) {rule : Opening}
    (hrule : Table.standard.opening t.kind = some rule) :
    Decides (· + 1) (fun n ↦ opening (exprWithin .standard n) rule)
      (Spells (Expr.Derives .unary)) (t :: vs) := by
  have hne := Table.kind_ne_endOfText_of_opening hrule
  cases rule with
  | primary =>
    cases hprimary : Grammar.primary t with
    | ok e =>
      have hatom : Expr.Derives .primary [t] e.bare := .atom (atom_of_primary hprimary)
      have hread : Decides (· + 1) (fun _ ↦ do let _ ← advance; return e)
          (Then (· = [t]) (· = [])) (t :: vs) := .advance hne hends fun _ _ ↦ .pure e
      refine (hread.imp ?_).congr ?_
      · rintro _ ⟨rfl, rfl⟩
        exact ⟨_, hatom.of_rank_le (by decide)⟩
      · rintro n c rfl
        rw [opening, bind_of_ok (advance_apply c), bind_of_ok (advance_apply c)]
        simp only [hprimary]
    -- the token is no expression, and nothing was read before it: a variable could stand there
    | error x =>
      refine .fail (Expr.exists_spells _) (blames_of_primary hprimary) ?_
      rintro n c rfl
      refine ⟨c.next, ?_⟩
      rw [opening, bind_of_ok (advance_apply c)]
      simp only [hprimary]
      rfl
  -- the operator is known from the table, so the look at it in the parser cannot fail
  | unary =>
    obtain ⟨op, hop⟩ := Table.exists_unaryOp_of_opening hrule
    have hop' := UnaryOp.ofKind?_eq_some_iff.2 hop
    refine ((operand_decides hexpr hends hlen hne .unary
      (Expr.unary { position := t.start } op)).imp ?_).congr ?_
    · rintro _ ⟨rfl, e, he⟩
      exact ⟨_, .unary hop he⟩
    · rintro n c rfl
      rw [opening, bind_of_ok (advance_apply c), bind_of_ok (advance_apply c)]
      simp only [hop']
  | grouping =>
    have hopen := Table.kind_of_opening_grouping hrule
    refine Decides.imp (.advance hne hends fun hvs hends ↦ (hexpr (hvs ▸ hlen) hends .lowest).seq
      hends (exists_one .closeParen) (fun _ _ ↦ Nat.le_add_right _ _)
      fun _ hends _ ↦ (Decides.expectDetailed (by decide) hends _).map fun _ ↦ _) ?_
    rintro _ ⟨rfl, ⟨e, he⟩, ⟨hclose⟩⟩
    have hgroup : Expr.Derives .primary _ e := .group hopen he hclose
    exact ⟨e, hgroup.of_rank_le (by decide)⟩

/-- The arguments of a call are decided about. -/
theorem actuals_decides (hends : Ends (t :: vs)) (hlen : (t :: vs).length < N) :
    Decides (fun i : Nat × Nat ↦ min i.1 i.2) (fun i ↦ actuals (exprWithin .standard i.1) i.2)
      (Spells (Commas (Expr.Derives .expr))) (t :: vs) := by
  refine Decides.commas (F := fun n ↦ exprWithin .standard n .lowest)
    (f := fun e ↦ .actual { position := e.position } e) ?_ ?_
    (fun hlen hends ↦ hexpr hlen hends .lowest) hlen hends
  · rintro ⟨n, m⟩ hpos
    obtain ⟨m, rfl⟩ := Nat.exists_eq_add_one.2 (Nat.lt_min.1 hpos).2
    refine ⟨n, (n, m), Nat.min_le_left _ _, ?_, rfl⟩
    show min n (m + 1) ≤ min n m + 1
    omega
  · intro ts e he
    obtain ⟨t, us, rfl, -⟩ := he.complete.1
    exact List.cons_ne_nil _ _

/-- How an expression goes on is decided about.  A token that assigns or calls is rejected if the
tree before it is no variable, and then the tokens before it are an expression as they are. -/
theorem following_decides {left : Expr} {l : Layer} {ts : List Token}
    (hleft : Expr.Derives l ts left.bare) (hends : Ends (t :: vs)) (hlen : vs.length < N)
    (hfollow : (Table.standard.power t.kind).rank ≤ l.rank) {rule : Following}
    (hrule : Table.standard.following t.kind = some rule) {p : Power}
    (hp : p < Table.standard.power t.kind) (hl : p.layer.rank ≤ l.rank) :
    Decides (fun i : Nat × Nat ↦ min i.1 i.2 + 1)
      (fun i ↦ following (exprWithin .standard i.1) i.2 left (Table.standard.power t.kind) rule)
      (fun us ↦ Spells (Expr.Derives p.layer) (ts ++ us)) (t :: vs) := by
  have hne := Table.kind_ne_endOfText_of_following hrule
  have hstop : ∃ us, Spells (Expr.Derives p.layer) (ts ++ us) :=
    ⟨[], left.bare, by rw [List.append_nil]; exact hleft.of_rank_le hl⟩
  have hfuel : ∀ i : Nat × Nat, min i.1 i.2 + 1 ≤ i.1 + 1 := fun i ↦
    Nat.succ_le_succ (Nat.min_le_left _ _)
  cases rule with
  | binary =>
    obtain ⟨l', op, hop⟩ := Table.exists_operator_of_following hrule
    obtain ⟨-, hkind, hrank, hnext, -⟩ := Table.following_of_operator? hop
    refine (((operand_decides hexpr hends hlen hne (Table.standard.power t.kind)
      (Expr.binary { position := left.position } left op)).imp ?_).comap Prod.fst hfuel).congr ?_
    · rintro _ ⟨rfl, e, he⟩
      have hbinary := Expr.Derives.binary hnext (hleft.of_rank_le (hrank ▸ hfollow)) hop he
      exact ⟨_, hbinary.of_rank_le (Power.rank_layer_le_of_lt (hrank ▸ hp))⟩
    · rintro i c rfl
      rw [following, bind_of_ok (advance_apply c), bind_of_ok (advance_apply c)]
      simp only [hkind]
  | assignment =>
    have hkind := Table.kind_of_following_assignment hrule
    cases left with
    | var note x =>
      refine ((operand_decides hexpr hends hlen hne .comma
        (Expr.assign { position := note.position } x)).imp ?_).comap Prod.fst hfuel
      rintro _ ⟨rfl, e, he⟩
      rw [hkind] at hp
      rw [Power.layer_of_lt_assignment hp]
      exact ⟨_, .assign (hleft.name_of_var rfl) hkind he⟩
    -- only a variable is assigned to; what was read up to the sign is an expression
    | _ => exact .unexpected hstop _
  | call =>
    have hkind := Table.kind_of_following_call hrule
    cases left with
    | var note x =>
      have hargs : ∀ {t vs}, Ends (t :: vs) → (t :: vs).length < N →
          Decides (fun i : Nat × Nat ↦ min i.1 i.2) (fun i ↦ do
            let args ← if (← kind) = .closeParen then pure []
              else actuals (exprWithin .standard i.1) i.2
            let _ ← expectDetailed .closeParen "expected ')' after call arguments"
            return Expr.call { position := note.position } x args)
          (Then (Spells (Optional (Commas (Expr.Derives .expr)) [])) (One .closeParen))
          (t :: vs) := by
        intro t vs hends hlen
        exact .optional hends (exists_one .closeParen) (fun _ ↦ actuals_decides hexpr hends hlen)
          fun hends _ ↦ (Decides.expectDetailed (by decide) hends _).map _
      refine Decides.imp (Decides.advance hne hends fun hvs hends ↦ hargs hends (hvs ▸ hlen)) ?_
      rintro _ ⟨rfl, ⟨es, hes⟩, ⟨hclose⟩⟩
      have hcall := Expr.Derives.call (hleft.name_of_var rfl) hkind hes hclose
      exact ⟨_, hcall.of_rank_le (Nat.le_trans p.rank_layer_le_unary (by decide))⟩
    | _ => exact .unexpected hstop _

/-! ## The loop for operators

The language of the loop is relative: `ts` are the tokens of the tree `left` that was read before,
and the loop reads tokens `us` such that `ts ++ us` spell an expression of the layer that was asked
for.  The empty list is one of them by the hypothesis on the layer of `left`, which is what makes it
safe for the loop to stop. -/

/-- The loop is decided about: what it has read so far is an expression that the next token can go
on with. -/
theorem climb_decides (p : Power) {left : Expr} {l : Layer} {ts : List Token}
    (hleft : Expr.Derives l ts left.bare) (hends : Ends (t :: vs)) (hlen : vs.length < N)
    (hfollow : (Table.standard.power t.kind).rank ≤ l.rank) (hl : p.layer.rank ≤ l.rank) :
    Decides (fun i : Nat × Nat ↦ min (i.1 + 1) i.2)
      (fun i ↦ climb .standard (exprWithin .standard i.1) p i.2 left)
      (fun us ↦ Spells (Expr.Derives p.layer) (ts ++ us)) (t :: vs) := by
  induction hn : vs.length using Nat.strongRecOn generalizing left l ts t vs with
  | ind n ih =>
    subst hn
    -- the loop may stop here: what it has read is an expression of the layer that was asked for
    have hstop : Spells (Expr.Derives p.layer) (ts ++ []) :=
      ⟨left.bare, by rw [List.append_nil]; exact hleft.of_rank_le hl⟩
    refine .of_succ_snd (F := fun n m ↦ climb .standard (exprWithin .standard n) p m left)
      (.peek_current ?_)
    by_cases hp : p < Table.standard.power t.kind
    · simp only [if_pos hp]
      cases hrule : Table.standard.following t.kind with
      | none =>
        refine .fail ⟨[], hstop⟩ .unexpected ?_
        rintro i c rfl
        exact ⟨c, rfl⟩
      | some rule =>
        refine (following_decides hexpr hleft hends hlen hfollow hrule hp hl).bind
          (fun i ↦ min (i.1 + 1) i.2) (fun hus ↦ ⟨[], by rwa [List.append_nil]⟩)
          fun {us vs' t' e} hws _ haccepts ↦ ?_
        obtain ⟨c, d, hc, hclosed, hrun, hd⟩ :=
          (haccepts (us.length, us.length) (by simp)).exists_run hends hws
        obtain rfl := Cursor.current_of_ahead hc
        obtain ⟨us', l', hne, hreads, hleft', hfollow', hl'⟩ :=
          following_sound (exprWithin_sound us.length) hleft hclosed hfollow hrule hrun
        obtain rfl := hreads.eq_of_ahead (hc.trans (hws.trans (by rw [hd])))
        rw [Cursor.kind_of_ahead hd] at hfollow'
        -- an operator was read, so fewer tokens are ahead in the next round
        have hpos := List.length_pos_iff.2 hne
        have hlt : vs'.length < vs.length := by
          have heq := congrArg List.length hws
          rw [List.length_cons, List.length_append, List.length_cons] at heq
          omega
        refine ⟨fun i ↦ by omega, (ih _ hlt hleft' (hends.drop hws) (Nat.lt_trans hlt hlen) hfollow'
          (hl' p hp) rfl).imp ?_⟩
        intro ws hws
        rwa [← List.append_assoc]
    · simp only [if_neg hp]
      exact (Decides.pure left).imp fun hus ↦ hus ▸ hstop

end Decides

/-! ## All expressions

An expression is its opening and then the loop.  The layer in which the opening leaves off is the
one that the loop starts with. -/

theorem decidesExpr (N : Nat) : DecidesExpr N := by
  induction N with
  | zero => exact fun _ h ↦ absurd h (Nat.not_lt_zero _)
  | succ N ih =>
    intro ws hlen hends p
    cases ws with
    | nil => exact absurd hends.choose_spec.1 (by simp)
    | cons t vs =>
      refine .of_succ (.peek_current ?_)
      cases hrule : Table.standard.opening t.kind with
      | none =>
        refine .fail (Expr.exists_spells _) .unexpected ?_
        rintro n c rfl
        exact ⟨c, rfl⟩
      | some rule =>
        have hlen' := Nat.lt_of_succ_lt_succ hlen
        refine (opening_decides ih hends hlen' hrule).bind (· + 1) ?_
          fun {us vs' t' e} hws _ haccepts ↦ ⟨fun _ ↦ Nat.le_add_right _ _, ?_⟩
        · rintro us ⟨e, he⟩
          exact ⟨[], e, by rw [List.append_nil]; exact he.of_rank_le p.rank_layer_le_unary⟩
        · obtain ⟨c, d, hc, hclosed, hrun, hd⟩ :=
            (haccepts us.length (Nat.lt_succ_self _)).exists_run hends hws
          obtain rfl := Cursor.current_of_ahead hc
          obtain ⟨us', l, hreads, hleft, hl, hfollow⟩ :=
            opening_sound (exprWithin_sound us.length) hclosed hrule hrun
          obtain rfl := hreads.eq_of_ahead (hc.trans (hws.trans (by rw [hd])))
          rw [Cursor.kind_of_ahead hd] at hfollow
          have hle : vs'.length ≤ vs.length := by
            have heq := congrArg List.length hws
            rw [List.length_cons, List.length_append, List.length_cons] at heq
            omega
          exact (climb_decides ih p hleft (hends.drop hws) (Nat.lt_of_le_of_lt hle hlen') hfollow
            (Nat.le_trans p.rank_layer_le_unary hl)).comap (fun n ↦ (n, n + 1))
            fun n ↦ Nat.le_min.2 ⟨Nat.le_refl _, Nat.le_refl _⟩

/-- **An expression is read, or the token that is rejected is the first that cannot stand in
one.** -/
theorem exprWithin_decides {ws : List Token} (hends : Ends ws) (p : Power) :
    Decides id (fun n ↦ exprWithin .standard n p) (Spells (Expr.Derives p.layer)) ws :=
  decidesExpr (ws.length + 1) (Nat.lt_succ_self _) hends p

end Grammar

end Typewright
