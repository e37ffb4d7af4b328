import Typewright.Proofs.ProgramParsing
import Typewright.Proofs.StmtDecision

/-!
# Errors are at the first token that breaks the grammar

`Program.ofTokens_error_at_first`: where no program is read, the diagnostic is about one token.  The
tokens before it can be completed to a program, and with it they cannot: whatever comes after it,
the diagnostic is the same.

Both halves are needed to call the place of an error the right one.  A parser that always complained
about the last token would have the second half, and one that always complained about the first
would have the first half.

The theorem is a reading of `Parse.Decides` for whole programs.  A rejection there comes with tokens
that complete what was read; by completeness of the parser (`declsWithin_eq`) the
completed list is in fact read, so that the statement speaks about what the parser does and not
about the grammar.
-/

set_option autoImplicit false

namespace Typewright

open Syntax Parse

/-- There is a declaration: one of a variable. -/
theorem Decl.exists_spells : ∃ ts, Spells Decl.Derives ts :=
  ⟨[⟨.varWord, "", default⟩, ⟨.identifier, "", default⟩, ⟨.identifier, "", default⟩,
    ⟨.semicolon, "", default⟩], _, .global (.mk rfl rfl rfl rfl)⟩

namespace Grammar

variable {t : Token} {vs : List Token}

/-! ## Declarations

The last rules of the grammar.  Parameters are a list with commas, and declarations a list without.
-/

/-- A parameter is decided about. -/
theorem param_decides {ι : Type} (fuel : ι → Nat) (hends : Ends (t :: vs)) :
    Decides fuel (fun _ ↦ do
      let name ← expectDetailed .identifier "expected parameter name"
      let type ← expectDetailed .identifier "expected parameter type"
      return (⟨name.value, type.value, name.start⟩ : VarDecl))
      (Spells VarDecl.DerivesParam) (t :: vs) := by
  refine Decides.imp ((Decides.expectDetailed (k := .identifier) (by decide) hends _).one_seq hends
    (exists_one .identifier) (fun _ ↦ Nat.le_succ _) fun _ hends ↦
      (Decides.expectDetailed (by decide) hends _).map _) ?_
  rintro _ ⟨⟨hname⟩, ⟨htype⟩⟩
  exact ⟨_, .mk hname htype⟩

/-- The parameters of a function are decided about. -/
theorem params_decides (hends : Ends (t :: vs)) :
    Decides id (fun n ↦ params n) (Spells (Commas VarDecl.DerivesParam)) (t :: vs) := by
  refine Decides.commas (f := id) ?_ (fun {ts v} hv ↦ ?_) (fun _ hends ↦ param_decides id hends)
    (Nat.lt_succ_self _) hends
  · intro n hn
    obtain ⟨n, rfl⟩ := Nat.exists_eq_add_one.2 hn
    refine ⟨n + 1, n, Nat.le_refl _, Nat.le_refl _, ?_⟩
    simp only [params, bind_assoc, pure_bind]
    rfl
  · cases hv
    exact List.cons_ne_nil _ _

/-- A function is decided about. -/
theorem fnDeclWithin_decides (ht : t.kind = .funcWord) (hends : Ends (t :: vs)) :
    Decides (· + 1) (fnDeclWithin .standard) (Spells FnDecl.Derives) (t :: vs) := by
  have htype := exists_then (exists_one .identifier) Block.exists_spells
  have hclose := exists_then (exists_one .closeParen) htype
  have hparams : ∃ ts, Spells (Optional (Commas VarDecl.DerivesParam) []) ts := ⟨[], _, .absent⟩
  have hopen := exists_then (exists_one .openParen) (exists_then hparams hclose)
  refine Decides.imp (.advance (by rw [ht]; decide) hends fun _ hends ↦
    (Decides.expectDetailed (by decide) hends _).one_seq hends hopen Nat.le_succ fun _ hends ↦
    (Decides.expect (by decide) hends).one_seq hends (exists_then hparams hclose) Nat.le_succ
      fun _ hends ↦ .optional hends hclose (fun _ ↦ params_decides hends) fun hends _ ↦
    (Decides.expect (by decide) hends).one_seq hends htype Nat.le_succ fun _ hends ↦
    (Decides.expectDetailed (by decide) hends _).one_seq hends Block.exists_spells Nat.le_succ
      fun _ hends ↦ ((blockWithin_decides hends).mono Nat.le_succ).map _) ?_
  rintro _ ⟨rfl, ⟨hname⟩, ⟨ho⟩, ⟨params, hparams⟩, ⟨hclose⟩, ⟨htype⟩, ⟨body, hbody⟩⟩
  exact ⟨_, .mk ht hname ho hparams hclose htype hbody⟩

/-- A declaration is decided about.  Anything but `var` and `func` is rejected at once, and a
declaration could have stood in its place. -/
theorem declWithin_decides (hends : Ends (t :: vs)) :
    Decides (· + 1) (declWithin .standard) (Spells Decl.Derives) (t :: vs) := by
  by_cases hvar : t.kind = .varWord
  · refine (((varDecl_decides (· + 1) hends hvar).imp ?_).map Decl.global).congr ?_
    · rintro _ ⟨v, hv⟩
      exact ⟨_, .global hv⟩
    · rintro n c rfl
      rw [declWithin_apply]
      exact if_pos hvar
  by_cases hfunc : t.kind = .funcWord
  · refine (((fnDeclWithin_decides hfunc hends).imp ?_).map Decl.function).congr ?_
    · rintro _ ⟨f, hf⟩
      exact ⟨_, .function hf⟩
    · rintro n c rfl
      rw [declWithin_apply]
      exact (if_neg hvar).trans (if_pos hfunc)
  · refine (Decides.unexpected Decl.exists_spells
      "expected 'var' or 'func' at top level").congr ?_
    rintro n c rfl
    rw [declWithin_apply]
    exact (if_neg hvar).trans (if_neg hfunc)

/-- **A list of declarations is read, or the token that is rejected is the first that cannot stand
in one.** -/
theorem declsWithin_decides (hends : Ends (t :: vs)) :
    Decides id (declsWithin .standard) (Spells (Many Decl.Derives)) (t :: vs) := by
  refine Decides.many (P := (· = .endOfText)) (f := id) ?_ (fun {ts x} hx ↦ ?_)
    (fun _ hends _ ↦ declWithin_decides hends) (Nat.lt_succ_self _) hends
  · intro n hn
    obtain ⟨n, rfl⟩ := Nat.exists_eq_add_one.2 hn
    exact ⟨n, n, Nat.le_refl _, Nat.le_refl _, declsWithin_apply n⟩
  · obtain ⟨t, us, rfl, -⟩ := hx.starts
    exact List.cons_ne_nil _ _

end Grammar

open Grammar

/-! ## Programs

A decision speaks about cursors and budgets.  The parser makes a cursor from the list of tokens and
takes its budget from the length of that list, which is enough. -/

/-- The cursor at the start of tokens, and its budget. -/
theorem Cursor.exists_ofTokens {ts us : List Token} {t : Token} :
    ∃ c, Cursor.ofTokens? (ts ++ t :: us) = some c ∧ c.ahead = ts ++ t :: us ∧
      ts.length < budget c := by
  obtain ⟨u, vs, heq⟩ : ∃ u vs, ts ++ t :: us = u :: vs :=
    List.exists_cons_of_ne_nil (List.append_ne_nil_of_right_ne_nil _ (List.cons_ne_nil _ _))
  have hbudget := length_rest_lt_budget ⟨u, vs, 0⟩
  have hlen := congrArg List.length heq
  rw [List.length_append, List.length_cons, List.length_cons] at hlen
  refine ⟨⟨u, vs, 0⟩, by rw [heq]; rfl, heq.symm, Nat.lt_of_le_of_lt ?_ hbudget⟩
  show ts.length ≤ vs.length
  omega

theorem Program.ofTokens_of_error {ts : List Token} {c d : Cursor} {stop : Stop}
    (hc : Cursor.ofTokens? ts = some c)
    (h : declsWithin .standard (budget c) c = .error stop d) : ofTokens ts = .error stop := by
  have hprogram : program .standard c = .error stop d := by
    rw [program, bind_of_error ((budgeted_apply _ _).trans h)]
  simp only [ofTokens, hc, EStateM.run, hprogram]

theorem Program.exists_ofTokens_of_derives {ts : List Token} {ds : List Decl} {eof : Token}
    (h : Many Decl.Derives ts ds) (heof : eof.kind = .endOfText) :
    ∃ p, ofTokens (ts ++ [eof]) = .ok p := by
  obtain ⟨t, us, m, heq, hr⟩ := Cursor.exists_reads_last ts eof 0
  have hstart : Cursor.ofTokens? (ts ++ [eof]) = some ⟨t, us, 0⟩ := by rw [heq]; rfl
  obtain ⟨ds', -, hread⟩ := declsWithin_eq h hr (length_rest_lt_budget _) heof
  exact ⟨⟨ds'⟩, (ofTokens_eq_ok hstart).2 ⟨_, program_eq_ok.2 hread⟩⟩

/-- **A syntax error is at the first token that breaks the grammar.**  The diagnostic is about one
of the tokens, those before it can be completed to a program, and with it they cannot: the
diagnostic is the same whatever comes after. -/
theorem Program.ofTokens_error_at_first {ts : List Token} {eof : Token}
    (heof : eof.kind = .endOfText) {stop : Stop} (h : ofTokens (ts ++ [eof]) = .error stop) :
    ∃ (d : Diagnostic) (k : Nat) (t : Token), stop = .error d ∧ (ts ++ [eof])[k]? = some t ∧
      d.Blames t ∧
      (∃ us p, ofTokens ((ts ++ [eof]).take k ++ us ++ [eof]) = .ok p) ∧
      ∀ us, ofTokens ((ts ++ [eof]).take (k + 1) ++ us) = .error (.error d) := by
  obtain ⟨t, us, heq⟩ : ∃ t us, ts ++ [eof] = t :: us :=
    List.exists_cons_of_ne_nil (List.append_ne_nil_of_right_ne_nil _ (List.cons_ne_nil _ _))
  have hends : Ends (t :: us) := heq ▸ ⟨eof, by simp, heof⟩
  rw [heq] at h ⊢
  cases declsWithin_decides hends with
  | accepts hws _ haccepts =>
    obtain ⟨c, hc, hahead, hbudget⟩ := Cursor.exists_ofTokens
    obtain ⟨d, hd, -⟩ := haccepts _ hbudget hahead
    rw [hws, (ofTokens_eq_ok hc).2 ⟨_, program_eq_ok (p := ⟨_⟩).2 hd⟩] at h
    cases h
  | @rejects ts' us' t' x hws hL hx hrejects =>
    -- the rejection does not depend on what follows, nor does the budget of the parser fall short
    have hstop : ∀ vs, ofTokens (ts' ++ t' :: vs) = .error (.error x) := by
      intro vs
      obtain ⟨c, hc, hahead, hbudget⟩ := Cursor.exists_ofTokens
      obtain ⟨d, hd⟩ := hrejects _ hbudget hahead
      exact ofTokens_of_error hc hd
    obtain ⟨vs, ds, hds⟩ := hL
    rw [hws] at h ⊢
    refine ⟨x, ts'.length, t', ?_, by simp, hx, ⟨vs, ?_⟩, fun vs ↦ ?_⟩
    · rw [hstop] at h
      cases h
      rfl
    · rw [List.take_left]
      exact exists_ofTokens_of_derives hds heof
    · rw [List.take_length_add_append, List.append_assoc]
      exact hstop vs

/-- The tokens of `func f() void { 1 = 2; }`, which assign to a number. -/
def Program.numberAssigned : List Token :=
  [(.funcWord, "func"), (.identifier, "f"), (.openParen, "("), (.closeParen, ")"),
    (.identifier, "void"), (.openCurly, "\x7b"), (.number, "1"), (.assignment, "="),
    (.number, "2"), (.semicolon, ";"), (.closeCurly, "\x7d")].map fun (kind, value) ↦
      ⟨kind, value, default⟩

theorem Program.ofTokens_numberAssigned_error :
    (Token.endAt default).kind = .endOfText ∧
      (∃ stop, ofTokens (numberAssigned ++ [Token.endAt default]) = .error stop) ∧
      ∃ (d : Diagnostic) (k : Nat) (t : Token),
        (numberAssigned ++ [Token.endAt default])[k]? = some t ∧ d.Blames t ∧
        (∃ us p, ofTokens ((numberAssigned ++ [Token.endAt default]).take k ++ us ++
          [Token.endAt default]) = .ok p) ∧
        ∀ us, ofTokens ((numberAssigned ++ [Token.endAt default]).take (k + 1) ++ us) =
          .error (.error d) := by
  have hread : ofTokens (numberAssigned ++ [Token.endAt default]) = .error (.error (.located
      (.unexpectedTokenDetailed "=" "left side of '=' must be a variable name") default)) := rfl
  obtain ⟨d, k, t, -, hfirst⟩ := ofTokens_error_at_first rfl hread
  exact ⟨rfl, ⟨_, hread⟩, d, k, t, hfirst⟩

end Typewright
