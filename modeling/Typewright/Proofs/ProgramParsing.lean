import Typewright.Proofs.StmtParsing

/-!
# Programs are read by the grammar

`Program.ofTokens` gives a program for exactly those lists of tokens that spell one, and it gives
the one that they spell.  So no list of tokens spells two programs, although the rules of the
grammar say nothing of how to choose between them.

The token at the end of the text stops the reading of declarations, so what is read is all there is
before it (`Cursor.Reads.eq_of_last`).

In the theorem the tokens come as `ts ++ [eof]`, where no token of `ts` is the end of the text.  A
scan gives nothing else.  For other lists it would not hold: declarations are read up to the first
end of the text, and what comes after that would be neither read nor reported.
-/

set_option autoImplicit false

namespace Typewright

open Syntax Parse

/-! ## The end of the text

A cursor at the last token has nothing to move on to.  If this is the only end of the text, it is
where the reading of declarations stops. -/

namespace Cursor

/-- The cursor at the start of tokens with one more token at their end. -/
theorem exists_reads_last (ts : List Token) (eof : Token) : ∀ m : Nat, ∃ t us m',
    ts ++ [eof] = t :: us ∧ Reads ⟨t, us, m⟩ ts ⟨eof, [], m'⟩ := by
  induction ts with
  | nil => exact fun m ↦ ⟨eof, [], m, rfl, .nil⟩
  | cons a as ih =>
    intro m
    obtain ⟨t, us, m', heq, hr⟩ := ih (m + 1)
    exact ⟨a, t :: us, m', by rw [List.cons_append, heq], .cons (List.cons_ne_nil t us) hr⟩

variable {c d e : Cursor} {ts us : List Token}

/-- Tokens are closed if the last one is the end of the text. -/
theorem Closed.of_reads_last (h : c.Reads ts d) (hd : d.rest = []) (hkind : d.kind = .endOfText) :
    c.Closed := by
  refine ⟨fun {us e} h' hne ↦ ?_⟩
  induction h generalizing us with
  | nil =>
    cases h' with
    | nil => exact absurd hkind hne
    | cons hc _ => exact absurd hd hc
  | cons hc _ ih =>
    cases h' with
    | nil => exact hc
    | cons _ h' => exact ih hd hkind h'

/-- Where only the last token is the end of the text, everything before it lies between the start
and the end of the text. -/
theorem Reads.eq_of_last (h : c.Reads ts d) (hts : ∀ t ∈ ts, t.kind ≠ .endOfText)
    (hd : d.rest = []) (h' : c.Reads us e) (he : e.kind = .endOfText) : us = ts := by
  induction h generalizing us with
  | nil =>
    cases h' with
    | nil => rfl
    | cons hc _ => exact absurd hd hc
  | cons hc _ ih =>
    cases h' with
    | nil => exact absurd he (hts _ List.mem_cons_self)
    | cons _ h' => rw [ih (fun t ht ↦ hts t (List.mem_cons_of_mem _ ht)) hd h']

end Cursor

namespace Grammar

/-! ## What is read is spelt by the tokens

Functions and declarations, after the pattern of statements. -/

/-- Parameters that are read are spelt with commas between them. -/
theorem params_sound (n : Nat) :
    Sound (params n) fun ts vs ↦ Commas VarDecl.DerivesParam ts (vs.map VarDecl.bare) := by
  induction n with
  | zero => exact fun _ _ _ _ h ↦ (throw_eq_ok.1 h).elim
  | succ n ih =>
    intro c d vs hc h
    simp only [params, bind_eq_ok, expectDetailed_eq_ok, kind_apply, EStateM.Result.ok.injEq] at h
    obtain ⟨_, _, ⟨hname, rfl, rfl⟩, _, _, ⟨htype, rfl, rfl⟩, _, _, ⟨rfl, rfl⟩, h⟩ := h
    have hread := hc.reads_cons hname (by decide) (hc.next.reads_cons htype (by decide) .nil)
    by_cases hcomma : c.next.next.kind = .comma
    · simp only [if_pos hcomma, bind_eq_ok, advance_apply, EStateM.Result.ok.injEq,
        pure_eq_ok] at h
      obtain ⟨_, _, ⟨rfl, rfl⟩, vs, c₁, hvs, rfl, rfl⟩ := h
      obtain ⟨us, hus, hders⟩ := ih hc.next.next.next hvs
      exact ⟨_, hread.trans (hc.next.next.reads_cons hcomma (by decide) hus),
        .more (.mk hname htype) hcomma hders⟩
    · rw [if_neg hcomma, pure_eq_ok] at h
      obtain ⟨rfl, rfl⟩ := h
      exact ⟨_, hread, .one (.mk hname htype)⟩

theorem optionalParams_sound {n : Nat} {c d : Cursor} {vs : List VarDecl} (hc : c.Closed)
    (h : (if c.kind = .closeParen then pure [] else params n) c = .ok vs d) :
    ∃ ts, c.Reads ts d ∧ Optional (Commas VarDecl.DerivesParam) [] ts (vs.map VarDecl.bare) := by
  have hsound : Sound (params n) fun ts vs ↦
      Optional (Commas VarDecl.DerivesParam) [] ts (vs.map VarDecl.bare) :=
    (params_sound n).imp .present
  exact hsound.ite_pure .absent hc h

/-- A function that is read is spelt by the tokens that were read. -/
theorem fnDeclWithin_sound {n : Nat} {c d : Cursor} {f : FnDecl} (hc : c.Closed)
    (hfunc : c.kind = .funcWord) (h : fnDeclWithin .standard n c = .ok f d) :
    ∃ ts, c.Reads ts d ∧ FnDecl.Derives ts (f.relabel .unplaced) := by
  simp only [fnDeclWithin, bind_eq_ok, ite_bind_eq_ok, advance_apply, kind_apply,
    EStateM.Result.ok.injEq, expectDetailed_eq_ok, expect_eq_ok, pure_eq_ok] at h
  obtain ⟨_, _, ⟨rfl, rfl⟩, _, _, ⟨hname, rfl, rfl⟩, _, _, ⟨ho, rfl, rfl⟩, _, _, ⟨rfl, rfl⟩, vs, c₁,
    hvs, _, _, ⟨hclose, rfl, rfl⟩, _, _, ⟨htype, rfl, rfl⟩, body, c₂, hbody, rfl, rfl⟩ := h
  obtain ⟨ts, hts, hders⟩ := optionalParams_sound hc.next.next.next hvs
  have hc₁ := hc.next.next.next.of_reads hts
  obtain ⟨us, hus, hder⟩ := blockOf_sound (stmtWithin_sound n) n hc₁.next.next hbody
  refine ⟨_, hc.reads_cons hfunc (by decide) (hc.next.reads_cons hname (by decide)
    (hc.next.next.reads_cons ho (by decide) (hts.trans (hc₁.reads_cons hclose (by decide)
      (hc₁.next.reads_cons htype (by decide) hus))))), ?_⟩
  exact .mk hfunc hname ho hders hclose htype hder

/-! ### Declarations

The two kinds of declarations are told apart by their first token.  A list of them ends at the end
of the text and nowhere else. -/

/-- A declaration starts with `var` or with `func`. -/
theorem declWithin_apply (n : Nat) (c : Cursor) :
    declWithin .standard n c =
      if c.kind = .varWord then (do return Decl.global (← varDecl)) c
      else if c.kind = .funcWord then (do return Decl.function (← fnDeclWithin .standard n)) c
      else (unexpected "expected 'var' or 'func' at top level" : Parse Decl) c := by
  rw [declWithin, bind_of_ok (kind_apply c)]
  generalize c.kind = k
  cases k <;> rfl

/-- A declaration that is read is spelt by the tokens that were read. -/
theorem declWithin_sound (n : Nat) :
    Sound (declWithin .standard n) fun ts d ↦ Decl.Derives ts (d.relabel .unplaced) := by
  intro c d x hc h
  rw [declWithin_apply] at h
  by_cases hvar : c.kind = .varWord
  · simp only [if_pos hvar, bind_eq_ok, pure_eq_ok] at h
    obtain ⟨v, _, hv, rfl, rfl⟩ := h
    obtain ⟨ts, hts, hder⟩ := varDecl_sound hc hvar hv
    exact ⟨ts, hts, .global hder⟩
  · rw [if_neg hvar] at h
    by_cases hfunc : c.kind = .funcWord
    · simp only [if_pos hfunc, bind_eq_ok, pure_eq_ok] at h
      obtain ⟨f, _, hf, rfl, rfl⟩ := h
      obtain ⟨ts, hts, hder⟩ := fnDeclWithin_sound hc hfunc hf
      exact ⟨ts, hts, .function hder⟩
    · rw [if_neg hfunc] at h
      exact (unexpected_eq_ok.1 h).elim

/-- Declarations are read up to the end of the text. -/
theorem declsWithin_apply (n : Nat) (c : Cursor) :
    declsWithin .standard (n + 1) c =
      if c.kind = .endOfText then .ok [] c
      else (do return (← declWithin .standard n) :: (← declsWithin .standard n)) c := by
  have hget : (get : Parse Cursor) c = .ok c c := rfl
  rw [declsWithin, bind_of_ok hget]
  by_cases h : c.kind = .endOfText
  · rw [if_pos h, if_neg (by simp [Cursor.hasTokens, h])]
    rfl
  · rw [if_neg h, if_pos (by simp [Cursor.hasTokens, h])]

/-- **Declarations that are read are spelt by the tokens that were read**, and nothing but the end
of the text follows them. -/
theorem declsWithin_sound (n : Nat) : ∀ {c d : Cursor} {ds : List Decl}, c.Closed →
    declsWithin .standard n c = .ok ds d → d.kind = .endOfText ∧
      ∃ ts, c.Reads ts d ∧ Many Decl.Derives ts (ds.map (Decl.relabel .unplaced)) := by
  induction n with
  | zero => exact fun _ h ↦ (throw_eq_ok.1 h).elim
  | succ n ih =>
    intro c d ds hc h
    rw [declsWithin_apply] at h
    by_cases hend : c.kind = .endOfText
    · rw [if_pos hend] at h
      cases h
      exact ⟨hend, [], .nil, .nil⟩
    · simp only [if_neg hend, bind_eq_ok, pure_eq_ok] at h
      obtain ⟨x, c₁, hx, ds, c₂, hds, rfl, rfl⟩ := h
      obtain ⟨ts, hts, hder⟩ := declWithin_sound n hc hx
      obtain ⟨hlast, us, hus, hders⟩ := ih (hc.of_reads hts) hds
      exact ⟨hlast, ts ++ us, hts.trans hus, .cons hder hders⟩

/-! ## What the tokens spell is read

The other direction.  A parameter is followed by a comma or by the closing parenthesis, and a
declaration by another one or by the end of the text. -/

/-- The parameters of a function are read, up to a token that is no comma. -/
theorem params_eq {ts : List Token} {vs : List VarDecl} (h : Commas VarDecl.DerivesParam ts vs) :
    ∀ {n : Nat} {c d : Cursor}, c.Reads ts d → c.rest.length < n → d.kind ≠ .comma →
      ∃ vs', vs'.map VarDecl.bare = vs ∧ params n c = .ok vs' d := by
  induction h with
  | one hv =>
    intro n c d hr hn hd
    obtain ⟨n, rfl⟩ := Nat.exists_eq_add_one.2 (Nat.zero_lt_of_lt hn)
    obtain ⟨hname, htype⟩ := hv
    rcases hr with _ | ⟨-, _ | ⟨-, _ | _⟩⟩
    refine ⟨[⟨c.current.value, c.next.current.value, c.current.start⟩], rfl, ?_⟩
    rw [params, bind_of_ok (expectDetailed_of_kind hname _),
      bind_of_ok (expectDetailed_of_kind htype _), bind_of_ok (kind_apply _), if_neg hd]
    rfl
  | more hv hcomma _ ih =>
    intro n c d hr hn hd
    obtain ⟨n, rfl⟩ := Nat.exists_eq_add_one.2 (Nat.zero_lt_of_lt hn)
    obtain ⟨hname, htype⟩ := hv
    obtain ⟨_, hr₁, rfl, hr₂, hle, hlt⟩ := hr.split_cons
    rcases hr₁ with _ | ⟨-, _ | ⟨-, _ | _⟩⟩
    have hkind : c.next.next.kind = .comma := hcomma
    obtain ⟨vs', rfl, hvs'⟩ := ih hr₂ (n := n) (by omega) hd
    refine ⟨⟨c.current.value, c.next.current.value, c.current.start⟩ :: vs', rfl, ?_⟩
    rw [params, bind_of_ok (expectDetailed_of_kind hname _),
      bind_of_ok (expectDetailed_of_kind htype _), bind_of_ok (kind_apply _), if_pos hkind,
      bind_of_ok (advance_apply _), bind_of_ok hvs']
    rfl

end Grammar

open Grammar

theorem VarDecl.DerivesParam.starts {ts : List Token} {v : VarDecl}
    (h : VarDecl.DerivesParam ts v) : Starts (· = .identifier) ts := by
  cases h with
  | mk hname _ => exact .cons hname _

/-- The parameters are left out exactly where the parenthesis is closed at once. -/
theorem Grammar.optionalParams_eq {ts : List Token} {vs : List VarDecl}
    (h : Optional (Commas VarDecl.DerivesParam) [] ts vs) {n : Nat} {c d : Cursor}
    (hr : c.Reads ts d) (hn : c.rest.length < n) (hd : d.kind = .closeParen) :
    ∃ vs', vs'.map VarDecl.bare = vs ∧
      (if c.kind = .closeParen then pure [] else params n) c = .ok vs' d := by
  cases h with
  | absent =>
    cases hr
    exact ⟨[], rfl, by rw [if_pos hd]; rfl⟩
  | present h =>
    have hname : c.kind ≠ .closeParen := by
      rw [Cursor.kind_of_starts (h.starts fun hv ↦ hv.starts) hr]
      decide
    rw [if_neg hname]
    exact params_eq h hr hn (by rw [hd]; decide)

/-! ### Functions and declarations

The tokens of a function are taken apart from the left: the name, the parameters up to the closing
parenthesis, the type and the body.  Each cursor between two parts has fewer tokens ahead than the
one before. -/

/-- A function that the tokens spell is read. -/
theorem FnDecl.Derives.fnDeclWithin_eq {ts : List Token} {f : FnDecl} (h : FnDecl.Derives ts f)
    {n : Nat} {c d : Cursor} (hr : c.Reads ts d) (hn : c.rest.length ≤ n) :
    ∃ f', f'.relabel .unplaced = f ∧ fnDeclWithin .standard n c = .ok f' d := by
  obtain ⟨hfunc, hname, ho, hparams, hclose, htype, hbody⟩ := h
  rcases hr with _ | ⟨hc₁, _ | ⟨hc₂, _ | ⟨hc₃, hr⟩⟩⟩
  obtain ⟨c', hr₁, hr⟩ := hr.split
  rcases hr with _ | ⟨hc₄, _ | ⟨hc₅, hr₂⟩⟩
  -- each token leaves fewer ahead, so the fuel is enough for the parameters and for the body
  have hlength₁ := Cursor.length_rest_next hc₁
  have hlength₂ := Cursor.length_rest_next hc₂
  have hlength₃ := Cursor.length_rest_next hc₃
  have hlength₄ := hr₁.length_rest_le
  have hlength₅ := Cursor.length_rest_next hc₄
  have hlength₆ := Cursor.length_rest_next hc₅
  obtain ⟨vs', rfl, hvs'⟩ := optionalParams_eq hparams hr₁ (n := n) (by omega) hclose
  obtain ⟨body', rfl, hbody'⟩ := hbody.complete.read hr₂ (n := n) (m := n) (by omega) (by omega)
  refine ⟨⟨c.next.current.value, vs', c'.next.current.value, body', c.current.start⟩, rfl, ?_⟩
  rw [fnDeclWithin, bind_of_ok (advance_apply c), bind_of_ok (expectDetailed_of_kind hname _),
    bind_of_ok (expect_of_kind ho), bind_of_ok (kind_apply _), ite_bind_of_ok hvs']
  refine (bind_of_ok (expect_of_kind hclose) _).trans ?_
  rw [bind_of_ok (expectDetailed_of_kind htype _), blockWithin, bind_of_ok hbody']
  rfl

theorem FnDecl.Derives.starts {ts : List Token} {f : FnDecl} (h : FnDecl.Derives ts f) :
    Starts (· = .funcWord) ts := by
  cases h with
  | mk hfunc _ _ _ _ _ _ => exact .cons hfunc _

/-- A declaration starts with `var` or `func`, so it does not start at the end of the text. -/
theorem Decl.Derives.starts {ts : List Token} {x : Decl} (h : Decl.Derives ts x) :
    Starts (· ≠ .endOfText) ts := by
  cases h with
  | function hf => exact hf.starts.imp fun h ↦ by rw [h]; decide
  | global hv => exact hv.starts.imp fun h ↦ by rw [h]; decide

/-- A declaration that the tokens spell is read. -/
theorem Decl.Derives.declWithin_eq {ts : List Token} {x : Decl} (h : Decl.Derives ts x)
    {n : Nat} {c d : Cursor} (hr : c.Reads ts d) (hn : c.rest.length ≤ n) :
    ∃ x', x'.relabel .unplaced = x ∧ declWithin .standard n c = .ok x' d := by
  rw [declWithin_apply]
  cases h with
  | function hf =>
    have hkind := Cursor.kind_of_starts hf.starts hr
    obtain ⟨f', rfl, hf'⟩ := hf.fnDeclWithin_eq hr hn
    refine ⟨.function f', rfl, ?_⟩
    rw [if_neg (by rw [hkind]; decide), if_pos hkind, bind_of_ok hf']
    rfl
  | global hv =>
    have hkind := Cursor.kind_of_starts hv.starts hr
    obtain ⟨v', rfl, hv'⟩ := hv.varDecl_eq hr
    refine ⟨.global v', rfl, ?_⟩
    rw [if_pos hkind, bind_of_ok hv']
    rfl

/-- **Declarations that the tokens spell are read**, up to the end of the text. -/
theorem Grammar.declsWithin_eq {ts : List Token} {ds : List Decl} (h : Many Decl.Derives ts ds) :
    ∀ {n : Nat} {c d : Cursor}, c.Reads ts d → c.rest.length < n → d.kind = .endOfText →
      ∃ ds', ds'.map (Decl.relabel .unplaced) = ds ∧ declsWithin .standard n c = .ok ds' d := by
  induction h with
  | nil =>
    intro n c d hr hn hd
    obtain ⟨n, rfl⟩ := Nat.exists_eq_add_one.2 (Nat.zero_lt_of_lt hn)
    cases hr
    exact ⟨[], rfl, by rw [declsWithin_apply, if_pos hd]⟩
  | cons hx _ ih =>
    intro n c d hr hn hd
    obtain ⟨n, rfl⟩ := Nat.exists_eq_add_one.2 (Nat.zero_lt_of_lt hn)
    obtain ⟨c₁, hr₁, hr₂⟩ := hr.split
    have hkind := Cursor.kind_of_starts hx.starts hr₁
    have hlength := Cursor.length_rest_lt_of_starts hx.starts hr₁
    obtain ⟨x', rfl, hx'⟩ := hx.declWithin_eq hr₁ (n := n) (by omega)
    obtain ⟨ds', rfl, hds'⟩ := ih hr₂ (n := n) (by omega) hd
    refine ⟨x' :: ds', rfl, ?_⟩
    rw [declsWithin_apply, if_neg hkind, bind_of_ok hx', bind_of_ok hds']
    rfl

/-! ## Programs

Both directions for a whole list of tokens, from the fuel that the parser itself chooses. -/

theorem Grammar.program_eq_ok {c d : Cursor} {p : Program} :
    program .standard c = .ok p d ↔ declsWithin .standard (budget c) c = .ok p.decls d := by
  simp only [program, bind_eq_ok, pure_eq_ok, budgeted_apply]
  constructor
  · rintro ⟨ds, _, h, rfl, rfl⟩
    exact h
  · intro h
    exact ⟨p.decls, d, h, rfl, rfl⟩

theorem Program.ofTokens_eq_ok {ts : List Token} {c : Cursor} (hc : Cursor.ofTokens? ts = some c)
    {p : Program} : ofTokens ts = .ok p ↔ ∃ d, program .standard c = .ok p d := by
  simp only [ofTokens, hc, EStateM.run]
  cases program .standard c with
  | ok q d => simp
  | error stop d => simp

/-- **A program is read exactly if the tokens before the end of the text spell it.** -/
theorem Program.ofTokens_eq_ok_iff_derives {ts : List Token} {eof : Token}
    (hts : ∀ t ∈ ts, t.kind ≠ .endOfText) (heof : eof.kind = .endOfText) (p : Program) :
    (Program.ofTokens (ts ++ [eof])).map (Program.relabel .unplaced) = .ok p ↔
      Program.Derives ts p := by
  obtain ⟨t, us, m, heq, hr⟩ := Cursor.exists_reads_last ts eof 0
  have hstart : Cursor.ofTokens? (ts ++ [eof]) = some ⟨t, us, 0⟩ := by rw [heq]; rfl
  have hclosed := Cursor.Closed.of_reads_last hr rfl heof
  constructor
  · intro h
    cases hq : Program.ofTokens (ts ++ [eof]) with
    | error stop =>
      rw [hq] at h
      cases h
    | ok q =>
      rw [hq] at h
      cases h
      obtain ⟨d, hd⟩ := (Program.ofTokens_eq_ok hstart).1 hq
      obtain ⟨hend, vs, hvs, hders⟩ := declsWithin_sound _ hclosed (program_eq_ok.1 hd)
      -- the reading stopped at an end of the text, and there is only one
      exact hr.eq_of_last hts rfl hvs hend ▸ hders
  · intro h
    obtain ⟨ds, hds, hread⟩ := declsWithin_eq h hr (length_rest_lt_budget _) heof
    have hq := (Program.ofTokens_eq_ok hstart).2 ⟨_, program_eq_ok (p := ⟨ds⟩).2 hread⟩
    rw [hq]
    exact congrArg (fun ds ↦ Except.ok (Program.mk ds)) hds

/-- The tokens of
`func f(n int) void { var int m; (m) = n = 2 + n * g(n, m); if !b { } else if b { return; } }`. -/
def Program.sampleTokens : List Token :=
  [(.funcWord, "func"), (.identifier, "f"), (.openParen, "("), (.identifier, "n"),
    (.identifier, "int"), (.closeParen, ")"), (.identifier, "void"), (.openCurly, "\x7b"),
    (.varWord, "var"), (.identifier, "int"), (.identifier, "m"), (.semicolon, ";"),
    (.openParen, "("), (.identifier, "m"), (.closeParen, ")"), (.assignment, "="),
    (.identifier, "n"), (.assignment, "="), (.number, "2"), (.plus, "+"), (.identifier, "n"),
    (.star, "*"), (.identifier, "g"), (.openParen, "("), (.identifier, "n"), (.comma, ","),
    (.identifier, "m"), (.closeParen, ")"), (.semicolon, ";"),
    (.ifWord, "if"), (.not, "!"), (.identifier, "b"), (.openCurly, "\x7b"),
    (.closeCurly, "\x7d"), (.elseWord, "else"), (.ifWord, "if"), (.identifier, "b"),
    (.openCurly, "\x7b"), (.returnWord, "return"), (.semicolon, ";"), (.closeCurly, "\x7d"),
    (.closeCurly, "\x7d")].map fun (kind, value) ↦ ⟨kind, value, default⟩

/-- The program that `Program.sampleTokens` spells. -/
def Program.sample : Program :=
  ⟨[.function ⟨"f", [⟨"n", "int", default⟩], "void", ⟨default, [⟨"m", "int", default⟩],
    [.expr (.assign .blank "m" (.assign .blank "n" (.binary .blank (.int .blank 2) .add
        (.binary .blank (.var .blank "n") .mul (.call .blank "g"
          [.actual .blank (.var .blank "n"), .actual .blank (.var .blank "m")]))))),
      .cond default (.unary .blank .not (.var .blank "b")) (.empty default)
        ⟨default, [], [.cond default (.var .blank "b")
          ⟨default, [], [.ret default (.absent .blank)]⟩ (.empty default)]⟩]⟩, default⟩]⟩

theorem Program.derives_sample :
    (∀ t ∈ sampleTokens, t.kind ≠ .endOfText) ∧ (Token.endAt default).kind = .endOfText ∧
      (ofTokens (sampleTokens ++ [.endAt default])).map (relabel .unplaced) = .ok sample ∧
      Program.Derives sampleTokens sample := by
  have hts : ∀ t ∈ sampleTokens, t.kind ≠ .endOfText := by decide
  have heof : (Token.endAt default).kind = .endOfText := rfl
  have hread : (ofTokens (sampleTokens ++ [.endAt default])).map (relabel .unplaced) = .ok sample :=
    rfl
  exact ⟨hts, heof, hread, (ofTokens_eq_ok_iff_derives hts heof sample).1 hread⟩

end Typewright
