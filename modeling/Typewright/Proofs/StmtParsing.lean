import Typewright.Proofs.ExprParsing

/-!
# Statements are read by the grammar

Statements, blocks and the declarations of variables, against the rules of the grammar, in both
directions.

* `Grammar.blockOf_sound` and `Grammar.stmtWithin_sound` say that what is read is spelt by the
  tokens that were read.
* `Block.Derives.complete` says that a block that the tokens spell is read.

Only one rule looks beyond its tokens: an `if` goes on at an `else`.  A statement is therefore read
if no `else` follows it, and none does, because no statement starts with one.

## The shape of the proofs

A parser of statements chooses a rule by the current token, so soundness is a split over the rules
of the table.  In each case the hypothesis that the run succeeded is taken apart into the runs of
its steps; each of these reads some tokens, and the rule of the grammar puts them together.

For completeness there is one lemma for each rule of the grammar, from the completeness of its parts
to that of the whole (`Stmt.Complete.whileLoop` and so on).  A statement that is complete also
starts with a token by which the parser chooses its rule, and that token is needed to know that the
statement before it has come to an end.  The lemmas are put together at the end, by recursion on the
rules.

Fuel is counted in two ways, because the parser does: the depth of the rules and the length of each
list have a bound of their own.  Both are at least the number of tokens that are left, and every
rule that goes deeper has read a token before it.
-/

set_option autoImplicit false

namespace Typewright

open Syntax

/-- The declaration without its place. -/
abbrev VarDecl.bare (v : VarDecl) : VarDecl := v.relabel .unplaced

/-- The statement without places. -/
abbrev Stmt.bare (s : Stmt) : Stmt := s.relabel .unplaced

/-- The block without places. -/
abbrev Block.bare (b : Block) : Block := b.relabel .unplaced

theorem Block.bare_mk (p : Position) (vars : List VarDecl) (body : List Stmt) :
    Block.bare ⟨p, vars, body⟩ = ⟨default, vars.map VarDecl.bare, body.map Stmt.bare⟩ := by
  rw [Block.bare, Block.relabel, Stmt.relabelAll_eq_map, Relabel.position_unplaced]

/-- The kind of token at which the language has a rule.  It has `any` nowhere, since a block is read
by the rule of its own. -/
def StmtRule.kind : StmtRule → Kind
  | any | block => .openCurly
  | cond => .ifWord
  | whileLoop => .whileWord
  | forLoop => .forWord
  | ret => .returnWord
  | jump j => j.kind

/-- A rule of the table stands at one kind of token only. -/
theorem Table.kind_of_stmt {k : Kind} {rule : StmtRule} (h : standard.stmt k = some rule) :
    k = rule.kind := by
  cases k <;> cases h <;> rfl

/-- What opens an expression is read by no rule for statements. -/
theorem Table.stmt_of_opening {k : Kind} (h : standard.opening k ≠ none) :
    standard.stmt k = none := by
  revert h
  cases k <;> decide

namespace Grammar

open Parse

/-! ## What is read is spelt by the tokens

The lists of a block are read by loops with fuel of their own, and the induction is on that.  The
parser of expressions and that of statements are parameters until the end. -/

/-- A declaration of a variable that is read is spelt by its four tokens. -/
theorem varDecl_sound {c d : Cursor} {v : VarDecl} (hc : c.Closed) (hvar : c.kind = .varWord)
    (h : varDecl c = .ok v d) : ∃ ts, c.Reads ts d ∧ VarDecl.Derives ts v.bare := by
  simp only [varDecl, bind_eq_ok, advance_apply, EStateM.Result.ok.injEq, expectDetailed_eq_ok,
    expect_eq_ok, pure_eq_ok] at h
  obtain ⟨_, _, ⟨rfl, rfl⟩, _, _, ⟨htype, rfl, rfl⟩, _, _, ⟨hname, rfl, rfl⟩, _, _,
    ⟨hsemicolon, rfl, rfl⟩, rfl, rfl⟩ := h
  refine ⟨_, hc.reads_cons hvar (by decide) (hc.next.reads_cons htype (by decide)
    (hc.next.next.reads_cons hname (by decide)
      (hc.next.next.next.reads_cons hsemicolon (by decide) .nil))), ?_⟩
  exact .mk hvar htype hname hsemicolon

/-- The variables of a block, up to the first token that is not `var`. -/
theorem locals_sound (n : Nat) :
    Sound (locals n) fun ts vs ↦ Many VarDecl.Derives ts (vs.map VarDecl.bare) := by
  induction n with
  | zero => exact fun _ _ _ _ h ↦ (throw_eq_ok.1 h).elim
  | succ n ih =>
    intro c d vs hc h
    simp only [locals, bind_eq_ok, kind_apply, EStateM.Result.ok.injEq] at h
    obtain ⟨_, _, ⟨rfl, rfl⟩, h⟩ := h
    by_cases hvar : c.kind = .varWord
    · simp only [if_pos hvar, bind_eq_ok, pure_eq_ok] at h
      obtain ⟨v, c₁, hv, vs, c₂, hvs, rfl, rfl⟩ := h
      obtain ⟨ts, hts, hder⟩ := varDecl_sound hc hvar hv
      obtain ⟨us, hus, hders⟩ := ih (hc.of_reads hts) hvs
      exact ⟨ts ++ us, hts.trans hus, .cons hder hders⟩
    · rw [if_neg hvar, pure_eq_ok] at h
      obtain ⟨rfl, rfl⟩ := h
      exact ⟨[], .nil, .nil⟩

section Sound

variable {expr : Parse Expr} {stmt : Parse Stmt} {block : Parse Block}

/-- Statements are read up to a token that closes a block, or to the end of the text. -/
theorem stmts_sound (hstmt : Sound stmt fun ts s ↦ Stmt.Derives ts s.bare) (n : Nat) :
    Sound (stmts stmt n) fun ts ss ↦ Many Stmt.Derives ts (ss.map Stmt.bare) := by
  induction n with
  | zero => exact fun _ _ _ _ h ↦ (throw_eq_ok.1 h).elim
  | succ n ih =>
    intro c d ss hc h
    simp only [stmts, bind_eq_ok, kind_apply, EStateM.Result.ok.injEq] at h
    obtain ⟨_, _, ⟨rfl, rfl⟩, h⟩ := h
    by_cases hend : c.kind = .endOfText ∨ c.kind = .closeCurly
    · rw [if_pos hend, pure_eq_ok] at h
      obtain ⟨rfl, rfl⟩ := h
      exact ⟨[], .nil, .nil⟩
    · simp only [if_neg hend, bind_eq_ok, pure_eq_ok] at h
      obtain ⟨s, c₁, hs, ss, c₂, hss, rfl, rfl⟩ := h
      obtain ⟨ts, hts, hder⟩ := hstmt hc hs
      obtain ⟨us, hus, hders⟩ := ih (hc.of_reads hts) hss
      exact ⟨ts ++ us, hts.trans hus, .cons hder hders⟩

/-- A block that is read is spelt by the tokens that were read.  The end of the text would end the
statements too, but then the closing brace is missing and nothing is read. -/
theorem blockOf_sound (hstmt : Sound stmt fun ts s ↦ Stmt.Derives ts s.bare) (n : Nat) :
    Sound (blockOf stmt n) fun ts b ↦ Block.Derives ts b.bare := by
  intro c d b hc h
  simp only [blockOf, bind_eq_ok, expectDetailed_eq_ok, pure_eq_ok] at h
  obtain ⟨_, _, ⟨ho, rfl, rfl⟩, vars, c₁, hvars, body, c₂, hbody, _, _, ⟨hclose, rfl, rfl⟩, rfl,
    rfl⟩ := h
  obtain ⟨ts, hts, hders⟩ := locals_sound n hc.next hvars
  have hc₁ := hc.next.of_reads hts
  obtain ⟨us, hus, hders'⟩ := stmts_sound hstmt n hc₁ hbody
  have hlast := (hc₁.of_reads hus).reads_cons hclose (by decide) .nil
  refine ⟨_, hc.reads_cons ho (by decide) (hts.trans (hus.trans hlast)), ?_⟩
  simpa only [Block.bare_mk] using Block.Derives.mk ho hders hders' hclose

/-! ### Statements

A statement is read by the rule for its first token, and the rules of the grammar for statements are
told apart by it as well.  So each case is one rule of the grammar, applied to what is known about
the parts. -/

/-- The bound counts the `if`s that are chained by `else`. -/
theorem cond_sound (hexpr : Sound expr fun ts e ↦ Expr.Derives .expr ts e.bare)
    (hblock : Sound block fun ts b ↦ Block.Derives ts b.bare) (n : Nat) :
    ∀ {c d : Cursor} {s : Stmt}, c.Closed → c.kind = .ifWord → cond expr block n c = .ok s d →
      ∃ ts, c.Reads ts d ∧ Stmt.DerivesIf ts s.bare := by
  induction n with
  | zero => exact fun _ _ h ↦ (throw_eq_ok.1 h).elim
  | succ n ih =>
    intro c d s hc hif h
    simp only [cond, bind_eq_ok, advance_apply, kind_apply, EStateM.Result.ok.injEq] at h
    obtain ⟨_, _, ⟨rfl, rfl⟩, e, c₁, he, a, c₂, ha, _, _, ⟨rfl, rfl⟩, h⟩ := h
    obtain ⟨ts, hts, hder⟩ := hexpr hc.next he
    have hc₁ := hc.next.of_reads hts
    obtain ⟨us, hus, hdera⟩ := hblock hc₁ ha
    have hc₂ := hc₁.of_reads hus
    -- the three rules of the grammar for an `if`, as the parser tells them apart
    by_cases helse : c₂.kind = .elseWord
    · simp only [if_pos helse, bind_eq_ok, advance_apply, kind_apply, EStateM.Result.ok.injEq] at h
      obtain ⟨_, _, ⟨rfl, rfl⟩, _, _, ⟨rfl, rfl⟩, h⟩ := h
      by_cases hif' : c₂.next.kind = .ifWord
      · simp only [if_pos hif', bind_eq_ok, position_apply, EStateM.Result.ok.injEq,
          pure_eq_ok] at h
        obtain ⟨_, _, ⟨rfl, rfl⟩, inner, c₃, hinner, rfl, rfl⟩ := h
        obtain ⟨vs, hvs, hders⟩ := ih hc₂.next hif' hinner
        exact ⟨_, hc.reads_cons hif (by decide) (hts.trans (hus.trans
          (hc₂.reads_cons helse (by decide) hvs))), .elseIf hif hder hdera helse hders⟩
      · simp only [if_neg hif', bind_eq_ok, pure_eq_ok] at h
        obtain ⟨b, c₃, hb, rfl, rfl⟩ := h
        obtain ⟨vs, hvs, hderb⟩ := hblock hc₂.next hb
        exact ⟨_, hc.reads_cons hif (by decide) (hts.trans (hus.trans
          (hc₂.reads_cons helse (by decide) hvs))), .elseBlock hif hder hdera helse hderb⟩
    · simp only [if_neg helse, bind_eq_ok, position_apply, EStateM.Result.ok.injEq,
        pure_eq_ok] at h
      obtain ⟨_, _, ⟨rfl, rfl⟩, rfl, rfl⟩ := h
      exact ⟨_, hc.reads_cons hif (by decide) (hts.trans hus), .noElse hif hder hdera⟩

/-- An expression that may be left out.  It is absent exactly where the token that ends it is the
current one. -/
theorem optional_sound (hexpr : Sound expr fun ts e ↦ Expr.Derives .expr ts e.bare) (stop : Kind) :
    Sound (optional expr stop) fun ts e ↦ Expr.DerivesOptional ts e.bare := by
  intro c d e hc h
  simp only [optional, bind_eq_ok, current_apply, EStateM.Result.ok.injEq] at h
  obtain ⟨_, _, ⟨rfl, rfl⟩, h⟩ := h
  have hsound : Sound expr fun ts e ↦ Expr.DerivesOptional ts e.bare := hexpr.imp .present
  have hmissing : Expr.DerivesOptional [] (Expr.bare (.absent ⟨c.current.start, none⟩)) := .absent
  exact hsound.ite_pure hmissing hc h

/-- A statement that is read by the rule for its first token is spelt by the tokens that were
read. -/
theorem stmtRule_sound (hexpr : Sound expr fun ts e ↦ Expr.Derives .expr ts e.bare)
    (hstmt : Sound stmt fun ts s ↦ Stmt.Derives ts s.bare) {n : Nat} {rule : StmtRule}
    {c d : Cursor} {s : Stmt} (hc : c.Closed) (hrule : Table.standard.stmt c.kind = some rule)
    (h : stmtRule expr stmt n rule c = .ok s d) :
    ∃ ts, c.Reads ts d ∧ Stmt.Derives ts s.bare := by
  have hblock := blockOf_sound hstmt n
  cases rule with
  | any => exact hstmt hc h
  | block =>
    simp only [stmtRule, bind_eq_ok, pure_eq_ok] at h
    obtain ⟨b, _, hb, rfl, rfl⟩ := h
    obtain ⟨ts, hts, hder⟩ := hblock hc hb
    exact ⟨ts, hts, .block hder⟩
  | cond =>
    obtain ⟨ts, hts, hder⟩ := cond_sound hexpr hblock n hc (Table.kind_of_stmt hrule) h
    exact ⟨ts, hts, .cond hder⟩
  | whileLoop =>
    have hkind := Table.kind_of_stmt hrule
    simp only [stmtRule, bind_eq_ok, advance_apply, EStateM.Result.ok.injEq, pure_eq_ok] at h
    obtain ⟨_, _, ⟨rfl, rfl⟩, e, c₁, he, b, c₂, hb, rfl, rfl⟩ := h
    obtain ⟨ts, hts, hder⟩ := hexpr hc.next he
    obtain ⟨us, hus, hderb⟩ := hblock (hc.next.of_reads hts) hb
    exact ⟨_, hc.reads_cons hkind (by decide) (hts.trans hus), .whileLoop hkind hder hderb⟩
  | forLoop =>
    have hkind := Table.kind_of_stmt hrule
    simp only [stmtRule, bind_eq_ok, advance_apply, EStateM.Result.ok.injEq, expect_eq_ok,
      pure_eq_ok] at h
    obtain ⟨_, _, ⟨rfl, rfl⟩, i, c₁, hi, _, _, ⟨hsemicolon, rfl, rfl⟩, e, c₂, he, _, _,
      ⟨hsemicolon', rfl, rfl⟩, s, c₃, hs, b, c₄, hb, rfl, rfl⟩ := h
    obtain ⟨ts, hts, hderi⟩ := optional_sound hexpr _ hc.next hi
    have hc₁ := hc.next.of_reads hts
    obtain ⟨us, hus, hdere⟩ := optional_sound hexpr _ hc₁.next he
    have hc₂ := hc₁.next.of_reads hus
    obtain ⟨vs, hvs, hders⟩ := optional_sound hexpr _ hc₂.next hs
    obtain ⟨ws, hws, hderb⟩ := hblock (hc₂.next.of_reads hvs) hb
    refine ⟨_, hc.reads_cons hkind (by decide) (hts.trans (hc₁.reads_cons hsemicolon (by decide)
      (hus.trans (hc₂.reads_cons hsemicolon' (by decide) (hvs.trans hws))))), ?_⟩
    exact .forLoop hkind hderi hsemicolon hdere hsemicolon' hders hderb
  | ret =>
    have hkind := Table.kind_of_stmt hrule
    simp only [stmtRule, bind_eq_ok, advance_apply, EStateM.Result.ok.injEq, expect_eq_ok,
      pure_eq_ok] at h
    obtain ⟨_, _, ⟨rfl, rfl⟩, e, c₁, he, _, _, ⟨hsemicolon, rfl, rfl⟩, rfl, rfl⟩ := h
    obtain ⟨ts, hts, hder⟩ := optional_sound hexpr _ hc.next he
    have hlast := (hc.next.of_reads hts).reads_cons hsemicolon (by decide) .nil
    exact ⟨_, hc.reads_cons hkind (by decide) (hts.trans hlast), .ret hkind hder hsemicolon⟩
  | jump j =>
    have hkind := Table.kind_of_stmt hrule
    simp only [stmtRule, bind_eq_ok, advance_apply, EStateM.Result.ok.injEq, expect_eq_ok,
      pure_eq_ok] at h
    obtain ⟨_, _, ⟨rfl, rfl⟩, _, _, ⟨hsemicolon, rfl, rfl⟩, rfl, rfl⟩ := h
    have hlast := hc.next.reads_cons hsemicolon (by decide) .nil
    exact ⟨_, hc.reads_cons hkind (by cases j <;> decide) hlast, .jump hkind hsemicolon⟩

end Sound

/-- An expression that is read with the lowest power is any expression. -/
theorem exprWithin_lowest_sound (n : Nat) :
    Sound (exprWithin .standard n .lowest) fun ts e ↦ Expr.Derives .expr ts e.bare := by
  intro c d e hc h
  obtain ⟨ts, hts, hder, -⟩ := exprWithin_sound n .lowest hc h
  exact ⟨ts, hts, hder⟩

/-- **A statement that is read is spelt by the tokens that were read.**  The induction is on the
fuel: a statement within `n + 1` rules has only statements within `n` inside. -/
theorem stmtWithin_sound (n : Nat) :
    Sound (stmtWithin .standard n) fun ts s ↦ Stmt.Derives ts s.bare := by
  induction n with
  | zero => exact fun _ _ _ _ h ↦ (throw_eq_ok.1 h).elim
  | succ n ih =>
    intro c d s hc h
    simp only [stmtWithin, bind_eq_ok, kind_apply, EStateM.Result.ok.injEq] at h
    obtain ⟨_, _, ⟨rfl, rfl⟩, h⟩ := h
    cases hrule : Table.standard.stmt c.kind with
    | some rule =>
      rw [hrule] at h
      exact stmtRule_sound (exprWithin_lowest_sound _) ih hc hrule h
    | none =>
      rw [hrule] at h
      by_cases hvar : c.kind = .varWord
      · rw [if_pos hvar] at h
        exact (unexpected_eq_ok.1 h).elim
      -- what is read by no rule is an expression with a semicolon
      · simp only [if_neg hvar, bind_eq_ok, expect_eq_ok, pure_eq_ok] at h
        obtain ⟨e, c₁, he, _, _, ⟨hsemicolon, rfl, rfl⟩, rfl, rfl⟩ := h
        obtain ⟨ts, hts, hder⟩ := exprWithin_lowest_sound _ hc he
        have hlast := (hc.of_reads hts).reads_cons hsemicolon (by decide) .nil
        exact ⟨_, hts.trans hlast, .expr hder hsemicolon⟩

end Grammar

/-! ## What the tokens spell is read

What is read is a tree with places that is the given one without them.  So the lemmas give some
tree, of which this is known. -/

open Grammar Parse

/-- A variable that the tokens spell is read, whatever follows: its semicolon ends it. -/
theorem VarDecl.Derives.varDecl_eq {ts : List Token} {v : VarDecl} (h : VarDecl.Derives ts v)
    {c d : Cursor} (hr : c.Reads ts d) : ∃ v', v'.bare = v ∧ varDecl c = .ok v' d := by
  cases h with
  | mk hvar htype hname hsemicolon =>
    rcases hr with _ | ⟨-, _ | ⟨-, _ | ⟨-, _ | ⟨-, _ | _⟩⟩⟩⟩
    refine ⟨⟨c.next.next.current.value, c.next.current.value, c.current.start⟩, rfl, ?_⟩
    rw [varDecl, bind_of_ok (advance_apply c), bind_of_ok (expectDetailed_of_kind htype _),
      bind_of_ok (expectDetailed_of_kind hname _), bind_of_ok (expect_of_kind hsemicolon)]
    rfl

theorem VarDecl.Derives.starts {ts : List Token} {v : VarDecl} (h : VarDecl.Derives ts v) :
    Starts (· = .varWord) ts := by
  cases h with
  | mk hvar _ _ _ => exact .cons hvar _

/-- The variables of a block are read, up to a token that declares none. -/
theorem Grammar.locals_eq {ts : List Token} {vs : List VarDecl} (h : Many VarDecl.Derives ts vs) :
    ∀ {n : Nat} {c d : Cursor}, c.Reads ts d → c.rest.length < n → d.kind ≠ .varWord →
      ∃ vs', vs'.map VarDecl.bare = vs ∧ locals n c = .ok vs' d := by
  induction h with
  | nil =>
    intro n c d hr hn hd
    obtain ⟨n, rfl⟩ := Nat.exists_eq_add_one.2 (Nat.zero_lt_of_lt hn)
    cases hr
    refine ⟨[], rfl, ?_⟩
    rw [locals, bind_of_ok (kind_apply _), if_neg hd]
    rfl
  | cons hv _ ih =>
    intro n c d hr hn hd
    obtain ⟨n, rfl⟩ := Nat.exists_eq_add_one.2 (Nat.zero_lt_of_lt hn)
    obtain ⟨c₁, hr₁, hr₂⟩ := hr.split
    have hkind := Cursor.kind_of_starts hv.starts hr₁
    have hlength := Cursor.length_rest_lt_of_starts hv.starts hr₁
    obtain ⟨v', hv', heq⟩ := hv.varDecl_eq hr₁
    obtain ⟨vs', hvs', heqs⟩ := ih hr₂ (n := n) (by omega) hd
    refine ⟨v' :: vs', by rw [List.map_cons, hv', hvs'], ?_⟩
    rw [locals, bind_of_ok (kind_apply _), if_pos hkind, bind_of_ok heq, bind_of_ok heqs]
    rfl

section Expressions

variable {ts : List Token} {e : Expr} {n : Nat} {c d : Cursor}

/-- An expression is read, up to a token that binds nothing. -/
theorem Expr.Derives.exprWithin_lowest (h : Expr.Derives .expr ts e) (hr : c.Reads ts d)
    (hn : c.rest.length < n) (hd : Table.standard.power d.kind = .lowest) :
    ∃ e', e'.bare = e ∧ exprWithin .standard n .lowest c = .ok e' d :=
  Layer.Complete.exprWithin_eq (p := .lowest) h.complete.2 (by decide) hr hn
    (Nat.le_of_eq (congrArg Power.rank hd))

/-- An expression that may be left out is read, up to the token that ends it.  That token must open
no expression, or an absent expression could not be told from one that starts there. -/
theorem Expr.DerivesOptional.optional_eq (h : Expr.DerivesOptional ts e) (hr : c.Reads ts d)
    (hn : c.rest.length < n) {stop : Kind} (hd : d.kind = stop)
    (hpower : Table.standard.power stop = .lowest) (hopening : Table.standard.opening stop = none) :
    ∃ e', e'.bare = e ∧ Grammar.optional (exprWithin .standard n .lowest) stop c = .ok e' d := by
  cases h with
  | absent =>
    cases hr
    have hkind : c.current.kind = stop := hd
    refine ⟨.absent ⟨c.current.start, none⟩, rfl, ?_⟩
    rw [Grammar.optional, bind_of_ok (current_apply c), if_pos hkind]
    rfl
  | present h =>
    have hkind : c.current.kind ≠ stop := by
      rintro rfl
      exact Cursor.kind_of_starts h.complete.1 hr hopening
    obtain ⟨e', he', heq⟩ := h.exprWithin_lowest hr hn (hd ▸ hpower)
    refine ⟨e', he', ?_⟩
    rw [Grammar.optional, bind_of_ok (current_apply c), if_neg hkind, heq]

end Expressions

/-! ### Complete statements

That the tokens of a statement are read depends on what follows: after an `if` an `else` would be
read too.  The condition that none follows is put on all statements, since it is always there.  In a
block the next token starts a statement or closes the block, and no statement starts with `else`.  A
block ends with its own brace, and needs no condition.

What is shown of a statement includes its first token, because the loop over the statements of a
block looks at it before it goes on. -/

/-- A statement may start with a token of this kind. -/
def Kind.StartsStmt (k : Kind) : Prop :=
  Table.standard.stmt k ≠ none ∨ Table.standard.opening k ≠ none

/-- No statement starts with a token that ends one, or with `var` or `else`. -/
theorem Kind.StartsStmt.ne {k : Kind} (h : k.StartsStmt) :
    k ≠ .endOfText ∧ k ≠ .closeCurly ∧ k ≠ .varWord ∧ k ≠ .elseWord := by
  refine ⟨?_, ?_, ?_, ?_⟩ <;> rintro rfl <;> rcases h with h | h <;> exact h rfl

/-- The tokens can start a statement, and where they stand between two cursors and no `else` follows
them, the statement is read. -/
structure Stmt.Complete (ts : List Token) (s : Stmt) : Prop where
  starts : Starts Kind.StartsStmt ts
  read : ∀ ⦃n : Nat⦄ ⦃c d : Cursor⦄, c.Reads ts d → c.rest.length < n → d.kind ≠ .elseWord →
    ∃ s', s'.bare = s ∧ stmtWithin .standard n c = .ok s' d

/-- The same for an `if`, and the action that reads nothing else. -/
structure Stmt.CompleteIf (ts : List Token) (s : Stmt) : Prop where
  starts : Starts (· = .ifWord) ts
  read : ∀ ⦃n k : Nat⦄ ⦃c d : Cursor⦄, c.Reads ts d → c.rest.length ≤ n → c.rest.length < k →
    d.kind ≠ .elseWord → ∃ s', s'.bare = s ∧
      Grammar.cond (exprWithin .standard (n + 1) .lowest)
        (blockOf (stmtWithin .standard n) (n + 1)) k c = .ok s' d

/-- The same for a block, whatever follows it. -/
structure Block.Complete (ts : List Token) (b : Block) : Prop where
  starts : Starts (· = .openCurly) ts
  read : ∀ ⦃n m : Nat⦄ ⦃c d : Cursor⦄, c.Reads ts d → c.rest.length ≤ n → c.rest.length ≤ m →
    ∃ b', b'.bare = b ∧ blockOf (stmtWithin .standard n) m c = .ok b' d

/-- What comes after the variables of a block, or after a statement in it, is a statement or the end
of the block.  It is no `var` and no `else`, so neither the variables nor a last `if` go on. -/
theorem Cursor.kind_ne_of_stmts {ts : List Token} {ss : List Stmt} (h : Many Stmt.Complete ts ss)
    {c d : Cursor} (hr : c.Reads ts d) (hd : d.kind = .closeCurly) :
    c.kind ≠ .varWord ∧ c.kind ≠ .elseWord := by
  rcases h.nil_or_starts (fun hs ↦ hs.starts) with rfl | hstarts
  · cases hr
    rw [hd]
    decide
  · exact (kind_of_starts hstarts hr).ne.2.2

/-- The statements of a block are read, up to its end. -/
theorem Grammar.stmts_eq {ts : List Token} {ss : List Stmt} (h : Many Stmt.Complete ts ss) :
    ∀ {n k : Nat} {c d : Cursor}, c.Reads ts d → c.rest.length < n → c.rest.length < k →
      d.kind = .closeCurly →
      ∃ ss', ss'.map Stmt.bare = ss ∧ stmts (stmtWithin .standard n) k c = .ok ss' d := by
  induction h with
  | nil =>
    intro n k c d hr hn hk hd
    obtain ⟨k, rfl⟩ := Nat.exists_eq_add_one.2 (Nat.zero_lt_of_lt hk)
    cases hr
    refine ⟨[], rfl, ?_⟩
    rw [stmts, bind_of_ok (kind_apply _), if_pos (.inr hd)]
    rfl
  | cons hs hss ih =>
    intro n k c d hr hn hk hd
    obtain ⟨k, rfl⟩ := Nat.exists_eq_add_one.2 (Nat.zero_lt_of_lt hk)
    obtain ⟨c₁, hr₁, hr₂⟩ := hr.split
    -- no statement starts with a token at which the loop stops
    obtain ⟨hend, hclose, -, -⟩ := (Cursor.kind_of_starts hs.starts hr₁).ne
    obtain ⟨-, helse⟩ := Cursor.kind_ne_of_stmts hss hr₂ hd
    have hlength := Cursor.length_rest_lt_of_starts hs.starts hr₁
    obtain ⟨s', hs', heq⟩ := hs.read hr₁ hn helse
    obtain ⟨ss', hss', heqs⟩ := ih hr₂ (n := n) (k := k) (by omega) (by omega) hd
    refine ⟨s' :: ss', by rw [List.map_cons, hs', hss'], ?_⟩
    rw [stmts, bind_of_ok (kind_apply _), if_neg (not_or.2 ⟨hend, hclose⟩), bind_of_ok heq,
      bind_of_ok heqs]
    rfl

/-- A block is read if its variables and its statements are. -/
theorem Block.Complete.of_body {o c : Token} {ts us : List Token} {vars : List VarDecl}
    {body : List Stmt} (ho : o.kind = .openCurly) (hvars : Many VarDecl.Derives ts vars)
    (hbody : Many Stmt.Complete us body) (hc : c.kind = .closeCurly) :
    Block.Complete (o :: (ts ++ (us ++ [c]))) ⟨default, vars, body⟩ := by
  refine ⟨.cons ho _, ?_⟩
  intro n m c₀ d hr hn hm
  cases hr with
  | cons hc₀ hr =>
    obtain ⟨c₁, hr₁, hr⟩ := hr.split
    obtain ⟨c₂, hr₂, rfl, ⟨⟩, -, -⟩ := hr.split_cons
    have hclose : c₂.kind = .closeCurly := hc
    obtain ⟨hvar, -⟩ := Cursor.kind_ne_of_stmts hbody hr₂ hclose
    have hlength := Cursor.length_rest_next hc₀
    have hlength₁ := hr₁.length_rest_le
    obtain ⟨vars', rfl, hvars'⟩ := locals_eq hvars hr₁ (n := m) (by omega) hvar
    obtain ⟨body', rfl, hbody'⟩ := stmts_eq hbody hr₂ (n := n) (k := m) (by omega) (by omega) hclose
    refine ⟨⟨c₀.current.start, vars', body'⟩, Block.bare_mk _ _ _, ?_⟩
    rw [blockOf, bind_of_ok (expectDetailed_of_kind ho _), bind_of_ok hvars', bind_of_ok hbody',
      bind_of_ok (expectDetailed_of_kind hclose _)]
    rfl

/-! ### Branches

A chain of `if`s is read by an action of its own, which is also what follows an `else`.  So the
lemmas are about this action, and a statement is read by it later on. -/

/-- What an `if` and a `while` have in common: a condition and a block. -/
theorem Expr.Derives.read_with_block {ts us : List Token} {e : Expr} {b : Block}
    (he : Expr.Derives .expr ts e) (hb : Block.Complete us b) {n : Nat} {c c₁ d : Cursor}
    (hc : c.rest ≠ []) (hr₁ : c.next.Reads ts c₁) (hr₂ : c₁.Reads us d) (hn : c.rest.length ≤ n) :
    ∃ e' b', e'.bare = e ∧ b'.bare = b ∧
      exprWithin .standard (n + 1) .lowest c.next = .ok e' c₁ ∧
      blockOf (stmtWithin .standard n) (n + 1) c₁ = .ok b' d := by
  have hcurly := Cursor.kind_of_starts hb.starts hr₂
  have hlength := Cursor.length_rest_next hc
  have hlength₁ := hr₁.length_rest_le
  obtain ⟨e', he', heq⟩ := he.exprWithin_lowest hr₁ (n := n + 1) (by omega) (by rw [hcurly]; rfl)
  obtain ⟨b', hb', heq'⟩ := hb.read hr₂ (n := n) (m := n + 1) (by omega) (by omega)
  exact ⟨e', b', he', hb', heq, heq'⟩

namespace Stmt.CompleteIf

/-- An `if` without an `else`.  This is the one rule that needs to know that no `else` follows. -/
theorem noElse {t : Token} {ts us : List Token} {e : Expr} {a : Block} (ht : t.kind = .ifWord)
    (he : Expr.Derives .expr ts e) (ha : Block.Complete us a) :
    Stmt.CompleteIf (t :: (ts ++ us)) (.cond default e a (.empty default)) := by
  refine ⟨.cons ht _, ?_⟩
  intro n k c d hr hn hk helse
  obtain ⟨k, rfl⟩ := Nat.exists_eq_add_one.2 (Nat.zero_lt_of_lt hk)
  cases hr with
  | cons hc hr =>
    obtain ⟨c₁, hr₁, hr₂⟩ := hr.split
    obtain ⟨e', a', rfl, rfl, he', ha'⟩ := he.read_with_block ha hc hr₁ hr₂ hn
    refine ⟨.cond c.current.start e' a' (.empty d.position), rfl, ?_⟩
    rw [Grammar.cond, bind_of_ok (advance_apply c), bind_of_ok he', bind_of_ok ha',
      bind_of_ok (kind_apply d), if_neg helse]
    rfl

/-- Where the parts of an `if` with an `else` stand. -/
theorem split_else {t t' : Token} {ts us vs : List Token} {c d : Cursor}
    (hr : c.Reads (t :: (ts ++ (us ++ t' :: vs))) d) :
    ∃ c₁ c₂, c.rest ≠ [] ∧ c.next.Reads ts c₁ ∧ c₁.Reads us c₂ ∧ c₂.kind = t'.kind ∧
      c₂.next.Reads vs d ∧ c₂.next.rest.length < c.rest.length := by
  cases hr with
  | cons hc hr =>
    obtain ⟨c₁, hr₁, hr⟩ := hr.split
    obtain ⟨c₂, hr₂, rfl, hr₃, hle, hlt⟩ := hr.split_cons
    have hlength := Cursor.length_rest_next hc
    have hlength₁ := hr₁.length_rest_le
    exact ⟨c₁, c₂, hc, hr₁, hr₂, rfl, hr₃, by omega⟩

/-- An `if` with a block after its `else`. -/
theorem elseBlock {t t' : Token} {ts us vs : List Token} {e : Expr} {a b : Block}
    (ht : t.kind = .ifWord) (he : Expr.Derives .expr ts e) (ha : Block.Complete us a)
    (ht' : t'.kind = .elseWord) (hb : Block.Complete vs b) :
    Stmt.CompleteIf (t :: (ts ++ (us ++ t' :: vs))) (.cond default e a b) := by
  refine ⟨.cons ht _, ?_⟩
  intro n k c d hr hn hk _
  obtain ⟨k, rfl⟩ := Nat.exists_eq_add_one.2 (Nat.zero_lt_of_lt hk)
  obtain ⟨c₁, c₂, hc, hr₁, hr₂, helse, hr₃, hlength⟩ := split_else hr
  have hif : c₂.next.kind ≠ .ifWord := by
    rw [Cursor.kind_of_starts hb.starts hr₃]
    decide
  obtain ⟨e', a', rfl, rfl, he', ha'⟩ := he.read_with_block ha hc hr₁ hr₂ hn
  obtain ⟨b', rfl, hb'⟩ := hb.read hr₃ (n := n) (m := n + 1) (by omega) (by omega)
  refine ⟨.cond c.current.start e' a' b', rfl, ?_⟩
  rw [Grammar.cond, bind_of_ok (advance_apply c), bind_of_ok he', bind_of_ok ha',
    bind_of_ok (kind_apply c₂), if_pos (helse.trans ht'), bind_of_ok (advance_apply c₂),
    bind_of_ok (kind_apply _), if_neg hif, bind_of_ok hb']
  rfl

/-- An `if` with another one after its `else`.  The second one is all that is left to read, so what
follows it is what follows the first. -/
theorem elseIf {t t' : Token} {ts us vs : List Token} {e : Expr} {a : Block} {s : Stmt}
    (ht : t.kind = .ifWord) (he : Expr.Derives .expr ts e) (ha : Block.Complete us a)
    (ht' : t'.kind = .elseWord) (hs : Stmt.CompleteIf vs s) :
    Stmt.CompleteIf (t :: (ts ++ (us ++ t' :: vs))) (.cond default e a ⟨default, [], [s]⟩) := by
  refine ⟨.cons ht _, ?_⟩
  intro n k c d hr hn hk hd
  obtain ⟨k, rfl⟩ := Nat.exists_eq_add_one.2 (Nat.zero_lt_of_lt hk)
  obtain ⟨c₁, c₂, hc, hr₁, hr₂, helse, hr₃, hlength⟩ := split_else hr
  have hif := Cursor.kind_of_starts hs.starts hr₃
  obtain ⟨e', a', rfl, rfl, he', ha'⟩ := he.read_with_block ha hc hr₁ hr₂ hn
  obtain ⟨s', rfl, hs'⟩ := hs.read hr₃ (n := n) (k := k) (by omega) (by omega) hd
  refine ⟨.cond c.current.start e' a' ⟨c₂.next.position, [], [s']⟩, rfl, ?_⟩
  rw [Grammar.cond, bind_of_ok (advance_apply c), bind_of_ok he', bind_of_ok ha',
    bind_of_ok (kind_apply c₂), if_pos (helse.trans ht'), bind_of_ok (advance_apply c₂),
    bind_of_ok (kind_apply _), if_pos hif, bind_of_ok (position_apply _), bind_of_ok hs']
  rfl

end Stmt.CompleteIf

/-! ### The rules of the grammar

One lemma for each rule.  The tokens are split where the parts meet, the cursors there are named,
and the parts are read one after the other.  The fuel is enough for each, since fewer tokens are
ahead of a part than of the whole. -/

theorem Grammar.stmtWithin_eq_stmtRule {n : Nat} {c : Cursor} {rule : StmtRule}
    (hrule : Table.standard.stmt c.kind = some rule) :
    stmtWithin .standard (n + 1) c = stmtRule (exprWithin .standard (n + 1) .lowest)
      (stmtWithin .standard n) (n + 1) rule c := by
  rw [stmtWithin, bind_of_ok (kind_apply c)]
  simp only [hrule]

namespace Stmt.Complete

theorem block {ts : List Token} {b : Block} (hb : Block.Complete ts b) :
    Stmt.Complete ts (.block b) := by
  refine ⟨hb.starts.imp fun h ↦ .inl (by rw [h]; nofun), ?_⟩
  intro n c d hr hn _
  obtain ⟨n, rfl⟩ := Nat.exists_eq_add_one.2 (Nat.zero_lt_of_lt hn)
  have hrule : Table.standard.stmt c.kind = some .block := by
    rw [Cursor.kind_of_starts hb.starts hr]
    rfl
  obtain ⟨b', rfl, hb'⟩ := hb.read hr (n := n) (m := n + 1) (by omega) (by omega)
  refine ⟨.block b', rfl, ?_⟩
  rw [stmtWithin_eq_stmtRule hrule, stmtRule, bind_of_ok hb']
  rfl

theorem cond {ts : List Token} {s : Stmt} (hs : Stmt.CompleteIf ts s) : Stmt.Complete ts s := by
  refine ⟨hs.starts.imp fun h ↦ .inl (by rw [h]; nofun), ?_⟩
  intro n c d hr hn helse
  obtain ⟨n, rfl⟩ := Nat.exists_eq_add_one.2 (Nat.zero_lt_of_lt hn)
  have hrule : Table.standard.stmt c.kind = some .cond := by
    rw [Cursor.kind_of_starts hs.starts hr]
    rfl
  obtain ⟨s', hs', heq⟩ := hs.read hr (n := n) (k := n + 1) (by omega) hn helse
  exact ⟨s', hs', by rw [stmtWithin_eq_stmtRule hrule, stmtRule, heq]⟩

/-- A loop with a condition. -/
theorem whileLoop {t : Token} {ts us : List Token} {e : Expr} {b : Block}
    (ht : t.kind = .whileWord) (he : Expr.Derives .expr ts e) (hb : Block.Complete us b) :
    Stmt.Complete (t :: (ts ++ us)) (.whileLoop default e b) := by
  refine ⟨.cons (.inl (by rw [ht]; nofun)) _, ?_⟩
  intro n c d hr hn _
  obtain ⟨n, rfl⟩ := Nat.exists_eq_add_one.2 (Nat.zero_lt_of_lt hn)
  cases hr with
  | cons hc hr =>
    have hrule : Table.standard.stmt c.kind = some .whileLoop := by rw [Cursor.kind, ht]; rfl
    obtain ⟨c₁, hr₁, hr₂⟩ := hr.split
    obtain ⟨e', b', rfl, rfl, he', hb'⟩ := he.read_with_block hb hc hr₁ hr₂ (Nat.le_of_lt_succ hn)
    refine ⟨.whileLoop c.current.start e' b', rfl, ?_⟩
    rw [stmtWithin_eq_stmtRule hrule, stmtRule, bind_of_ok (advance_apply c), bind_of_ok he',
      bind_of_ok hb']
    rfl

/-- A `return`, with a value or without. -/
theorem ret {t semicolon : Token} {ts : List Token} {e : Expr} (ht : t.kind = .returnWord)
    (he : Expr.DerivesOptional ts e) (hsemicolon : semicolon.kind = .semicolon) :
    Stmt.Complete (t :: (ts ++ [semicolon])) (.ret default e) := by
  refine ⟨.cons (.inl (by rw [ht]; nofun)) _, ?_⟩
  intro n c d hr hn _
  obtain ⟨n, rfl⟩ := Nat.exists_eq_add_one.2 (Nat.zero_lt_of_lt hn)
  cases hr with
  | cons hc hr =>
    have hrule : Table.standard.stmt c.kind = some .ret := by rw [Cursor.kind, ht]; rfl
    obtain ⟨c₁, hr₁, rfl, ⟨⟩, -, -⟩ := hr.split_cons
    have hlength := Cursor.length_rest_next hc
    obtain ⟨e', rfl, he'⟩ := he.optional_eq hr₁ (n := n + 1) (by omega) hsemicolon rfl rfl
    refine ⟨.ret c.current.start e', rfl, ?_⟩
    rw [stmtWithin_eq_stmtRule hrule, stmtRule, bind_of_ok (advance_apply c), bind_of_ok he',
      bind_of_ok (expect_of_kind hsemicolon)]
    rfl

theorem forLoop {t semicolon semicolon' : Token} {ts us vs ws : List Token} {i e s : Expr}
    {b : Block} (ht : t.kind = .forWord) (hi : Expr.DerivesOptional ts i)
    (hsemicolon : semicolon.kind = .semicolon) (he : Expr.DerivesOptional us e)
    (hsemicolon' : semicolon'.kind = .semicolon) (hs : Expr.DerivesOptional vs s)
    (hb : Block.Complete ws b) :
    Stmt.Complete (t :: (ts ++ semicolon :: (us ++ semicolon' :: (vs ++ ws))))
      (.forLoop default i e s b) := by
  refine ⟨.cons (.inl (by rw [ht]; nofun)) _, ?_⟩
  intro n c d hr hn _
  obtain ⟨n, rfl⟩ := Nat.exists_eq_add_one.2 (Nat.zero_lt_of_lt hn)
  rcases hr with _ | ⟨hc, hr⟩
  have hrule : Table.standard.stmt c.kind = some .forLoop := by rw [Cursor.kind, ht]; rfl
  obtain ⟨c₁, hr₁, rfl, hr, hle₁, hlt₁⟩ := hr.split_cons
  obtain ⟨c₂, hr₂, rfl, hr, hle₂, hlt₂⟩ := hr.split_cons
  obtain ⟨c₃, hr₃, hr₄⟩ := hr.split
  have hcurly := Cursor.kind_of_starts hb.starts hr₄
  have hlength := Cursor.length_rest_next hc
  have hle₃ := hr₃.length_rest_le
  obtain ⟨i', rfl, hi'⟩ := hi.optional_eq hr₁ (n := n + 1) (by omega) hsemicolon rfl rfl
  obtain ⟨e', rfl, he'⟩ := he.optional_eq hr₂ (n := n + 1) (by omega) hsemicolon' rfl rfl
  obtain ⟨s', rfl, hs'⟩ := hs.optional_eq hr₃ (n := n + 1) (by omega) hcurly rfl rfl
  obtain ⟨b', rfl, hb'⟩ := hb.read hr₄ (n := n) (m := n + 1) (by omega) (by omega)
  refine ⟨.forLoop c.current.start i' e' s' b', rfl, ?_⟩
  rw [stmtWithin_eq_stmtRule hrule, stmtRule, bind_of_ok (advance_apply c), bind_of_ok hi',
    bind_of_ok (expect_of_kind hsemicolon), bind_of_ok he',
    bind_of_ok (expect_of_kind hsemicolon'), bind_of_ok hs', bind_of_ok hb']
  rfl

theorem jump {t semicolon : Token} {j : Jump} (ht : t.kind = j.kind)
    (hsemicolon : semicolon.kind = .semicolon) :
    Stmt.Complete [t, semicolon] (.jump default j) := by
  have hstmt : Table.standard.stmt t.kind = some (.jump j) := by rw [ht]; cases j <;> rfl
  refine ⟨.cons (.inl (by rw [hstmt]; nofun)) _, ?_⟩
  intro n c d hr hn _
  obtain ⟨n, rfl⟩ := Nat.exists_eq_add_one.2 (Nat.zero_lt_of_lt hn)
  rcases hr with _ | ⟨-, _ | ⟨-, _ | _⟩⟩
  refine ⟨.jump c.current.start j, rfl, ?_⟩
  rw [stmtWithin_eq_stmtRule hstmt, stmtRule, bind_of_ok (advance_apply c),
    bind_of_ok (expect_of_kind hsemicolon)]
  rfl

/-- An expression with a semicolon.  No rule for statements is open to its first token
(`Table.stmt_of_opening`). -/
theorem expr {semicolon : Token} {ts : List Token} {e : Expr} (he : Expr.Derives .expr ts e)
    (hsemicolon : semicolon.kind = .semicolon) :
    Stmt.Complete (ts ++ [semicolon]) (.expr e) := by
  refine ⟨(he.complete.1.imp .inr).append _, ?_⟩
  intro n c d hr hn _
  obtain ⟨n, rfl⟩ := Nat.exists_eq_add_one.2 (Nat.zero_lt_of_lt hn)
  obtain ⟨c₁, hr₁, rfl, ⟨⟩, -, -⟩ := hr.split_cons
  have hopens := Cursor.kind_of_starts he.complete.1 hr₁
  have hkind : c₁.kind = .semicolon := hsemicolon
  obtain ⟨e', rfl, he'⟩ := he.exprWithin_lowest hr₁ hn (by rw [hkind]; rfl)
  obtain ⟨-, -, hvar, -⟩ := Kind.StartsStmt.ne (.inr hopens)
  refine ⟨.expr e', rfl, ?_⟩
  rw [stmtWithin, bind_of_ok (kind_apply c)]
  simp only [Table.stmt_of_opening hopens, if_neg hvar]
  rw [bind_of_ok he', bind_of_ok (expect_of_kind hsemicolon)]
  rfl

end Stmt.Complete

-- By recursion on the rules: the statements of a block are a list of derivations, so the list gets
-- a theorem of its own.
mutual
/-- A statement that the tokens spell is read. -/
theorem Stmt.Derives.complete {ts : List Token} {s : Stmt} :
    Stmt.Derives ts s → Stmt.Complete ts s
  | .block hb => .block hb.complete
  | .cond hs => .cond hs.complete
  | .whileLoop ht hc hb => .whileLoop ht hc hb.complete
  | .forLoop ht hi hsemicolon hc hsemicolon' hs hb =>
    .forLoop ht hi hsemicolon hc hsemicolon' hs hb.complete
  | .ret ht he hsemicolon => .ret ht he hsemicolon
  | .jump ht hsemicolon => .jump ht hsemicolon
  | .expr he hsemicolon => .expr he hsemicolon

/-- So is an `if`. -/
theorem Stmt.DerivesIf.complete {ts : List Token} {s : Stmt} :
    Stmt.DerivesIf ts s → Stmt.CompleteIf ts s
  | .noElse ht hc ha => .noElse ht hc ha.complete
  | .elseBlock ht hc ha ht' hb => .elseBlock ht hc ha.complete ht' hb.complete
  | .elseIf ht hc ha ht' hs => .elseIf ht hc ha.complete ht' hs.complete

/-- **A block that the tokens spell is read.** -/
theorem Block.Derives.complete {ts : List Token} {b : Block} :
    Block.Derives ts b → Block.Complete ts b
  | .mk ho hvars hbody hc => .of_body ho hvars (Stmt.Derives.completeMany hbody) hc

/-- So are statements in a row. -/
theorem Stmt.Derives.completeMany {ts : List Token} {ss : List Stmt} :
    Many Stmt.Derives ts ss → Many Stmt.Complete ts ss
  | .nil => .nil
  | .cons h hs => .cons h.complete (Stmt.Derives.completeMany hs)
end

end Typewright
