import Typewright.Proofs.ExprDecision
import Typewright.Proofs.StmtParsing

/-!
# Decisions about statements

`Grammar.decidesStmt`: on tokens that end with the end of the text, a statement is read, or a token
is rejected and the tokens before it can be completed to a statement.

Apart from expressions, the rules for statements choose by the kind of the current token alone.  So
a decision about a statement is a sequence of decisions about its parts, and the work is in saying
which language each sequence has.  As with expressions, the induction is on a bound for the number
of tokens ahead (`DecidesStmt N`), since a statement moves over a token before it comes to the block
inside it.

A chain of `if`s is read by a loop of its own with its own fuel.  Its lemmas (`afterElse_decides`,
`else_decides`, `cond_decides`) have two budgets, the one for statements and the one for the chain,
and say that the smaller one is enough.
-/

set_option autoImplicit false

namespace Typewright

open Syntax Parse

/-- There is a block: one without statements. -/
theorem Block.exists_spells : ∃ ts, Spells Block.Derives ts := by
  have hblock : Block.Derives
      (⟨.openCurly, "", default⟩ :: ([] ++ ([] ++ [⟨.closeCurly, "", default⟩])))
      ⟨default, [], []⟩ := .mk rfl .nil .nil rfl
  exact ⟨_, _, hblock⟩

/-- There is a statement: one that leaves a loop. -/
theorem Stmt.exists_spells : ∃ ts, Spells Stmt.Derives ts :=
  ⟨[⟨.breakWord, "", default⟩, ⟨.semicolon, "", default⟩], _, .jump (j := .leave) rfl rfl⟩

theorem Stmt.Derives.ne_nil {ts : List Token} {s : Stmt} (h : Stmt.Derives ts s) : ts ≠ [] := by
  cases h with
  | block hb => cases hb; exact List.cons_ne_nil _ _
  | cond hs => cases hs <;> exact List.cons_ne_nil _ _
  | expr he _ => exact List.append_ne_nil_of_right_ne_nil _ (List.cons_ne_nil _ _)
  | _ => exact List.cons_ne_nil _ _

namespace Grammar

variable {t : Token} {vs : List Token}

/-! ## Blocks

The variables of a block.  They need no hypothesis: a declaration of a variable contains no other
rule that repeats itself. -/

/-- A declaration of a variable is decided about. -/
theorem varDecl_decides {ι : Type} (fuel : ι → Nat) (hends : Ends (t :: vs))
    (ht : t.kind = .varWord) :
    Decides fuel (fun _ ↦ varDecl) (Spells VarDecl.Derives) (t :: vs) := by
  have hsemicolon := exists_one .semicolon
  have hname := exists_then (exists_one .identifier) hsemicolon
  have hread : Decides (fun i ↦ fuel i + 1) (fun _ ↦ varDecl) _ (t :: vs) :=
    .advance (by rw [ht]; decide) hends fun _ hends ↦
      (Decides.expectDetailed (by decide) hends _).one_seq hends hname (fun _ ↦ Nat.le_succ _)
        fun _ hends ↦ (Decides.expectDetailed (by decide) hends _).one_seq hends hsemicolon
          (fun _ ↦ Nat.le_succ _) fun _ hends ↦ (Decides.expect (by decide) hends).map _
  refine (hread.imp ?_).mono fun _ ↦ Nat.le_succ _
  rintro _ ⟨rfl, ⟨htype⟩, ⟨hname⟩, ⟨hsemicolon⟩⟩
  exact ⟨_, .mk ht htype hname hsemicolon⟩

/-- The variables at the start of a block are decided about. -/
theorem locals_decides (hends : Ends (t :: vs)) :
    Decides id (fun n ↦ locals n) (Spells (Many VarDecl.Derives)) (t :: vs) := by
  refine Decides.many (P := (· ≠ .varWord)) (F := fun _ : Nat ↦ varDecl) (f := id)
    ?_ ?_ (fun _ hends ht ↦ varDecl_decides id hends (Decidable.not_not.1 ht))
    (Nat.lt_succ_self _) hends
  · intro n hn
    obtain ⟨n, rfl⟩ := Nat.exists_eq_add_one.2 hn
    refine ⟨n + 1, n, Nat.le_refl _, Nat.le_refl _, fun c ↦ ?_⟩
    rw [locals, bind_of_ok (kind_apply c), ite_not]
    by_cases hvar : c.kind = .varWord
    · rw [if_pos hvar, if_pos hvar]
      rfl
    · rw [if_neg hvar, if_neg hvar]
      rfl
  · intro ts v hv
    cases hv
    exact List.cons_ne_nil _ _

/-! ## Clauses

The parts of the head of a `for` may be left out, and so may the value of a `return`.  An absent
expression is told by the token that ends it, and so the two lemmas for clauses have this token as a
parameter. -/

/-- An expression that may be left out is decided about. -/
theorem optional_decides (hends : Ends (t :: vs)) (stop : Kind) :
    Decides id (fun n ↦ optional (exprWithin .standard n .lowest) stop)
      (Spells Expr.DerivesOptional) (t :: vs) := by
  refine .peek_current ?_
  by_cases hstop : t.kind = stop
  · simp only [if_pos hstop]
    refine (Decides.pure _).imp ?_
    rintro _ rfl
    exact ⟨_, .absent⟩
  · simp only [if_neg hstop]
    refine (exprWithin_decides hends .lowest).imp ?_
    rintro _ ⟨e, he⟩
    exact ⟨e, .present he⟩

/-- A clause of a statement is decided about: an expression that may be left out, and more. -/
theorem clause_decides {α : Type} {G : Nat → Expr → Parse α} {M : List Token → Prop}
    (hends : Ends (t :: vs)) (stop : Kind) (hM : ∃ us, M us)
    (hG : ∀ {u : Token} {us : List Token} (e : Expr), Ends (u :: us) → us.length ≤ vs.length →
      Decides (fun n ↦ n) (fun n ↦ G n e) M (u :: us)) :
    Decides (fun n ↦ n) (fun n ↦ do
      let e ← optional (exprWithin .standard (n + 1) .lowest) stop
      G n e)
      (Then (Spells Expr.DerivesOptional) M) (t :: vs) := by
  refine ((optional_decides hends stop).comap (· + 1) Nat.le_succ).seq hends hM
    (fun _ _ ↦ Nat.le_add_right _ _) fun _ hends hlen ↦ hG _ hends ?_
  rw [List.length_cons] at hlen
  omega

/-- A clause with a semicolon at its end is decided about. -/
theorem semicolon_decides {α : Type} {G : Nat → Expr → Parse α} {M : List Token → Prop}
    (hends : Ends (t :: vs)) (hM : ∃ us, M us)
    (hG : ∀ {u : Token} {us : List Token} (e : Expr), Ends (u :: us) → us.length < vs.length →
      Decides (fun n ↦ n) (fun n ↦ G n e) M (u :: us)) :
    Decides (fun n ↦ n) (fun n ↦ do
      let e ← optional (exprWithin .standard (n + 1) .lowest) .semicolon
      let _ ← Parse.expect .semicolon
      G n e)
      (Then (Spells Expr.DerivesOptional) (Then (One .semicolon) M)) (t :: vs) := by
  refine clause_decides hends .semicolon (exists_then (exists_one _) hM) fun e hends hle ↦
    (Decides.expect (by decide) hends).one_seq hends hM Nat.le_succ fun hvs hends ↦ hG e hends ?_
  rw [hvs, List.length_cons] at hle
  omega

/-! ## Blocks inside statements

From here on statements are decided about on fewer tokens.  A block is read with the fuel of the
statement that it stands in. -/

/-- Statements are decided about on fewer than `N` tokens. -/
def DecidesStmt (N : Nat) : Prop :=
  ∀ ⦃t : Token⦄ ⦃vs : List Token⦄, (t :: vs).length < N → Ends (t :: vs) →
    Decides id (fun n ↦ stmtWithin .standard n) (Spells Stmt.Derives) (t :: vs)

/-- A block as it is read inside a statement. -/
abbrev innerBlock (n : Nat) : Parse Block := blockOf (stmtWithin .standard n) (n + 1)

/-- An `if` as it is read inside a statement. -/
abbrev innerCond (n m : Nat) : Parse Stmt :=
  cond (exprWithin .standard (n + 1) .lowest) (innerBlock n) m

section Decides

variable {N : Nat} (hstmt : DecidesStmt N)

include hstmt

/-- The statements of a block are decided about, up to the brace that closes it. -/
theorem stmts_decides (hends : Ends (t :: vs)) (hlen : (t :: vs).length < N) :
    Decides (fun i : Nat × Nat ↦ min i.1 i.2) (fun i ↦ stmts (stmtWithin .standard i.1) i.2)
      (Spells (Many Stmt.Derives)) (t :: vs) := by
  refine Decides.many (P := fun k ↦ k = .endOfText ∨ k = .closeCurly)
    (F := fun n ↦ stmtWithin .standard n) (f := id) ?_ (fun hs ↦ hs.ne_nil)
    (fun hlen hends _ ↦ hstmt hlen hends) hlen hends
  rintro ⟨n, m⟩ hpos
  obtain ⟨m, rfl⟩ := Nat.exists_eq_add_one.2 (Nat.lt_min.1 hpos).2
  refine ⟨n, (n, m), Nat.min_le_left _ _, ?_, fun c ↦ ?_⟩
  · show min n (m + 1) ≤ min n m + 1
    omega
  rw [stmts, bind_of_ok (kind_apply c)]
  by_cases hend : c.kind = .endOfText ∨ c.kind = .closeCurly
  · rw [if_pos hend, if_pos hend]
    rfl
  · rw [if_neg hend, if_neg hend]
    rfl

/-- A block is decided about. -/
theorem blockOf_decides (hends : Ends (t :: vs)) (hlen : vs.length < N) :
    Decides (fun i : Nat × Nat ↦ min i.1 i.2 + 1)
      (fun i ↦ blockOf (stmtWithin .standard i.1) i.2) (Spells Block.Derives) (t :: vs) := by
  have hclose := exists_one .closeCurly
  have hbody : ∃ ts, Spells (Many Stmt.Derives) ts := ⟨[], [], .nil⟩
  have hvars : ∃ ts, Spells (Many VarDecl.Derives) ts := ⟨[], [], .nil⟩
  have hrest := exists_then hvars (exists_then hbody hclose)
  refine Decides.imp ((Decides.expectDetailed (k := .openCurly) (by decide) hends _).one_seq hends
    hrest (fun _ ↦ Nat.le_refl _) fun hvs hends ↦ ((locals_decides hends).comap Prod.snd fun i ↦
        Nat.min_le_right i.1 i.2).seq hends (exists_then hbody hclose)
      (fun _ _ ↦ Nat.le_add_right _ _) fun _ hends hlen' ↦ (stmts_decides hstmt hends ?_).seq hends
        hclose (fun _ _ ↦ Nat.le_add_right _ _) fun _ hends _ ↦
          (Decides.expectDetailed (by decide) hends _).map _) ?_
  · rw [← hvs] at hlen'
    rw [List.length_cons]
    omega
  · rintro _ ⟨⟨ho⟩, ⟨vars, hvars⟩, ⟨body, hbody⟩, ⟨hclose⟩⟩
    exact ⟨_, .mk ho hvars hbody hclose⟩

/-- A block inside a statement is decided about. -/
theorem innerBlock_decides (hends : Ends (t :: vs)) (hlen : vs.length < N) :
    Decides (· + 1) innerBlock (Spells Block.Derives) (t :: vs) :=
  (blockOf_decides hstmt hends hlen).comap (fun n ↦ (n, n + 1)) fun n ↦
    Nat.succ_le_succ (Nat.le_min.2 ⟨Nat.le_refl n, Nat.le_succ n⟩)

/-- What an `if` and a `while` have in common is decided about: a condition and a block. -/
theorem condition_decides {ι α : Type} {fuel n : ι → Nat} {G : ι → Expr → Block → Parse α}
    {M : List Token → Prop} (hends : Ends (t :: vs)) (hlen : (t :: vs).length < N)
    (hfuel : ∀ i, fuel i ≤ n i + 1) (hM : ∃ us, M us)
    (hG : ∀ {u : Token} {us : List Token} (e : Expr) (b : Block), Ends (u :: us) →
      us.length ≤ vs.length → Decides fuel (fun i ↦ G i e b) M (u :: us)) :
    Decides fuel (fun i ↦ do
      let e ← exprWithin .standard (n i + 1) .lowest
      let b ← innerBlock (n i)
      G i e b)
      (Then (Spells (Expr.Derives .expr)) (Then (Spells Block.Derives) M)) (t :: vs) := by
  refine ((exprWithin_decides hends .lowest).comap (n · + 1) hfuel).seq hends
    (exists_then Block.exists_spells hM) (fun _ _ ↦ Nat.le_add_right _ _) fun _ hends hlen₁ ↦ ?_
  rw [List.length_cons] at hlen hlen₁
  refine ((innerBlock_decides hstmt hends (by omega)).comap n hfuel).seq hends hM
    (fun _ _ ↦ Nat.le_add_right _ _) fun _ hends hlen₂ ↦ hG _ _ hends ?_
  rw [List.length_cons] at hlen₂
  omega

/-! ## Branches

After an `else` there is a block or another `if`.  The second one becomes a block of one statement
in the tree, but in the tokens no braces are around it, so the language of what comes after `else`
has two alternatives. -/

/-- What comes after the `else` of an `if` is decided about. -/
theorem afterElse_decides (p : Position) (e : Expr) (b : Block) (hends : Ends (t :: vs))
    (hlen : vs.length < N)
    (hcond : t.kind = .ifWord → Decides (fun i : Nat × Nat ↦ min (i.1 + 1) i.2)
      (fun i ↦ innerCond i.1 i.2) (Spells Stmt.DerivesIf) (t :: vs)) :
    Decides (fun i : Nat × Nat ↦ min i.1 i.2)
      (fun i ↦ do
        if (← kind) = .ifWord then
          let q ← position
          let inner ← innerCond i.1 i.2
          return Stmt.cond p e b ⟨q, [], [inner]⟩
        else return Stmt.cond p e b (← innerBlock i.1))
      (fun us ↦ Spells Block.Derives us ∨ Spells Stmt.DerivesIf us) (t :: vs) := by
  refine .peek_kind ?_
  by_cases hif : t.kind = .ifWord
  · simp only [if_pos hif]
    refine .peek_position ((((hcond hif).imp .inr).mono fun i ↦ ?_).map _)
    exact Nat.le_min.2 ⟨Nat.le_succ_of_le (Nat.min_le_left _ _), Nat.min_le_right _ _⟩
  · simp only [if_neg hif]
    refine (((innerBlock_decides hstmt hends hlen).imp .inl).comap Prod.fst fun i ↦ ?_).map _
    exact Nat.le_succ_of_le (Nat.min_le_left _ _)

/-- What comes after the first block of an `if` is decided about. -/
theorem else_decides (p : Position) (e : Expr) (b : Block) (hends : Ends (t :: vs))
    (hlen : vs.length < N)
    (hcond : ∀ {u : Token} {us : List Token}, vs = u :: us → Ends (u :: us) → u.kind = .ifWord →
      Decides (fun i : Nat × Nat ↦ min (i.1 + 1) i.2) (fun i ↦ innerCond i.1 i.2)
        (Spells Stmt.DerivesIf) (u :: us)) :
    Decides (fun i : Nat × Nat ↦ min i.1 i.2)
      (fun i ↦ do
        if (← kind) = .elseWord then
          let _ ← advance
          if (← kind) = .ifWord then
            let q ← position
            let inner ← innerCond i.1 i.2
            return Stmt.cond p e b ⟨q, [], [inner]⟩
          else return Stmt.cond p e b (← innerBlock i.1)
        else return Stmt.cond p e b (.empty (← position)))
      (fun us ↦ us = [] ∨ Then (One .elseWord)
        (fun us ↦ Spells Block.Derives us ∨ Spells Stmt.DerivesIf us) us) (t :: vs) := by
  refine .peek_kind ?_
  by_cases helse : t.kind = .elseWord
  · simp only [if_pos helse]
    refine Decides.imp (Decides.mono (.advance (by rw [helse]; decide) hends fun hvs hends ↦
      afterElse_decides hstmt p e b hends ?_ (hcond hvs hends)) fun _ ↦ Nat.le_succ _) ?_
    · rw [hvs, List.length_cons] at hlen
      omega
    · rintro _ ⟨rfl, hus⟩
      exact .inr (.mk (.mk helse) hus)
  · simp only [if_neg helse]
    exact .peek_position ((Decides.pure _).imp .inl)

/-- An `if` is decided about. -/
theorem cond_decides (ht : t.kind = .ifWord) (hends : Ends (t :: vs)) (hlen : vs.length < N) :
    Decides (fun i : Nat × Nat ↦ min (i.1 + 1) i.2) (fun i ↦ innerCond i.1 i.2)
      (Spells Stmt.DerivesIf) (t :: vs) := by
  induction hn : vs.length using Nat.strongRecOn generalizing t vs with
  | ind n ih =>
    subst hn
    refine .of_succ_snd ?_
    refine Decides.imp (.advance (by rw [ht]; decide) hends fun hvs hends ↦
      condition_decides hstmt hends (hvs ▸ hlen) ?_ ⟨[], .inl rfl⟩ fun e b hends hle ↦
        else_decides hstmt _ e b hends ?_ fun hvs' hends hif ↦ ih _ ?_ hif hends ?_ rfl) ?_
    -- the numbers of tokens ahead: of the block, of the `else` and of the next `if`
    · exact fun i ↦ Nat.le_succ_of_le (Nat.min_le_left _ _)
    · rw [hvs, List.length_cons] at hlen
      omega
    · rw [hvs', List.length_cons] at hle
      rw [hvs, List.length_cons]
      omega
    · rw [hvs', List.length_cons] at hle
      rw [hvs, List.length_cons] at hlen
      omega
    · rintro _ ⟨rfl, ⟨e, he⟩, ⟨a, ha⟩, rfl | ⟨⟨helse⟩, ⟨b, hb⟩ | ⟨s, hs⟩⟩⟩
      · have hif := Stmt.DerivesIf.noElse ht he ha
        rw [List.append_nil]
        exact ⟨_, hif⟩
      · exact ⟨_, .elseBlock ht he ha helse hb⟩
      · exact ⟨_, .elseIf ht he ha helse hs⟩

/-! ## Statements

One case for each rule, and what no rule opens is an expression with a semicolon. -/

/-- A statement that has a rule for its first token is decided about. -/
theorem stmtRule_decides (hends : Ends (t :: vs)) (hlen : vs.length < N) {rule : StmtRule}
    (hrule : Table.standard.stmt t.kind = some rule) :
    Decides (· + 1) (fun n ↦ stmtRule (exprWithin .standard (n + 1) .lowest)
      (stmtWithin .standard n) (n + 1) rule) (Spells Stmt.Derives) (t :: vs) := by
  have hkind := Table.kind_of_stmt hrule
  have hne : t.kind ≠ .endOfText := by
    rintro heof
    rw [heof] at hrule
    cases hrule
  have hoptional : ∃ ts, Spells Expr.DerivesOptional ts := ⟨[], _, .absent⟩
  -- after each clause of a `for` there is a way to complete it
  have hstep := exists_then hoptional Block.exists_spells
  have hcondition := exists_then hoptional (exists_then (exists_one .semicolon) hstep)
  cases rule with
  | any => rw [hkind] at hrule; cases hrule
  | block =>
    refine ((innerBlock_decides hstmt hends hlen).imp ?_).map _
    rintro _ ⟨b, hb⟩
    exact ⟨_, .block hb⟩
  | cond =>
    refine ((cond_decides hstmt hkind hends hlen).imp ?_).comap (fun n ↦ (n, n + 1)) fun n ↦
      Nat.le_min.2 ⟨Nat.le_refl _, Nat.le_refl _⟩
    rintro _ ⟨s, hs⟩
    exact ⟨s, .cond hs⟩
  | whileLoop =>
    refine Decides.imp (.advance hne hends fun hvs hends ↦ condition_decides (M := (· = [])) hstmt
      hends (hvs ▸ hlen) Nat.le_succ ⟨[], rfl⟩ fun _ _ _ _ ↦ .pure _) ?_
    rintro _ ⟨rfl, ⟨e, he⟩, ⟨b, hb⟩, rfl⟩
    have hloop := Stmt.Derives.whileLoop hkind he hb
    rw [List.append_nil]
    exact ⟨_, hloop⟩
  | forLoop =>
    refine Decides.imp (.advance hne hends fun hvs hends ↦ semicolon_decides hends hcondition
      fun _ hends hlt ↦ semicolon_decides hends hstep fun _ hends hlt' ↦
        clause_decides hends .openCurly Block.exists_spells fun _ hends hle ↦
          ((innerBlock_decides hstmt hends ?_).mono Nat.le_succ).map _) ?_
    · rw [hvs, List.length_cons] at hlen
      omega
    rintro _ ⟨rfl, ⟨i, hi⟩, ⟨hsemicolon⟩, ⟨e, he⟩, ⟨hsemicolon'⟩, ⟨s, hs⟩, ⟨b, hb⟩⟩
    have hloop := Stmt.Derives.forLoop hkind hi hsemicolon he hsemicolon' hs hb
    exact ⟨_, hloop⟩
  | ret =>
    refine Decides.imp (.advance hne hends fun _ hends ↦ clause_decides hends .semicolon
      (exists_one .semicolon) fun _ hends _ ↦ (Decides.expect (by decide) hends).map _) ?_
    rintro _ ⟨rfl, ⟨e, he⟩, ⟨hsemicolon⟩⟩
    exact ⟨_, .ret hkind he hsemicolon⟩
  | jump j =>
    refine Decides.imp (.advance hne hends fun hvs hends ↦
      (Decides.expect (k := .semicolon) (by decide) hends).map _) ?_
    rintro _ ⟨rfl, ⟨hsemicolon⟩⟩
    exact ⟨_, .jump hkind hsemicolon⟩

end Decides

theorem decidesStmt (N : Nat) : DecidesStmt N := by
  induction N with
  | zero => exact fun _ _ h ↦ absurd h (Nat.not_lt_zero _)
  | succ N ih =>
    intro t vs hlen hends
    refine .of_succ (.peek_kind ?_)
    rcases hrule : Table.standard.stmt t.kind with _ | rule
    · by_cases hvar : t.kind = .varWord
      · simp only [if_pos hvar]
        exact .unexpected Stmt.exists_spells _
      · simp only [if_neg hvar]
        refine Decides.imp (((exprWithin_decides hends .lowest).comap (· + 1) fun n ↦
          Nat.le_refl (n + 1)).seq hends (exists_one .semicolon) (fun _ _ ↦ Nat.le_add_right _ _)
            fun _ hends _ ↦ (Decides.expect (by decide) hends).map _) ?_
        rintro _ ⟨⟨e, he⟩, ⟨hsemicolon⟩⟩
        exact ⟨_, .expr he hsemicolon⟩
    · exact stmtRule_decides ih hends (Nat.lt_of_succ_lt_succ hlen) hrule

/-- **A block is read, or the token that is rejected is the first that cannot stand in one.** -/
theorem blockWithin_decides (hends : Ends (t :: vs)) :
    Decides (· + 1) (blockWithin .standard) (Spells Block.Derives) (t :: vs) :=
  (blockOf_decides (decidesStmt _) hends (Nat.lt_succ_self _)).comap (fun n ↦ (n, n)) fun n ↦
    Nat.succ_le_succ (Nat.le_min.2 ⟨Nat.le_refl n, Nat.le_refl n⟩)

end Grammar

end Typewright
