import Typewright.Proofs.FirstError

/-!
# Reading stops at the end of the text

No rule of the grammar moves on from the end of the text.  `Cursor.Proceeds c d` says that `d` comes
after `c` by moves from other tokens only, and `Parse.Halts m c` that the action `m` goes on from
`c` in this way, whether it gives something in the end or stops.  This is shown of the rules one by
one, for all tokens and within any budget.

Together with `Parse.Decides`, where the tokens behind the one that was looked at last make no
difference, this is `Program.ofTokens_upTo_endOfText`: tokens with an end among them are always read
as a program or refused with a diagnostic, no cursor gets behind the first end, and what comes
behind it does not matter.

## Why two descriptions of the same parser

`Parse.Decides` is about lists of tokens that end with the end of the text, and about budgets that
are enough for them.  Where a cursor can get is a question about every state that a rule can be in,
also in the middle of a text and with a budget that runs out.  So `Parse.Halts` has no hypotheses
about what is ahead or how much fuel there is, and its proofs are by the structure of the rules
alone.

A cursor at its last token stays there when it is moved, so it would not run off the list in any
case.  The theorem says more: the moves are counted (`Cursor.UpTo`), and a cursor that were moved on
from the end of the text, with or without a token behind it, would have made one move too many.
-/

set_option autoImplicit false

namespace Typewright

/-! ## Moves from other tokens than the end

Runs of a cursor, by their first move.  What holds of a cursor and is kept by one move from a token
that is not the end (`UpTo.next`) is kept by a run (`UpTo.of_proceeds`). -/

namespace Cursor

/-- The cursor `d` comes after `c` by moves, none of which is from the end of the text. -/
inductive Proceeds : Cursor → Cursor → Prop
  | refl {c : Cursor} : Proceeds c c
  | next {c d : Cursor} (hc : c.kind ≠ .endOfText) (h : Proceeds c.next d) : Proceeds c d

theorem Proceeds.trans {c d e : Cursor} (h : c.Proceeds d) (h' : d.Proceeds e) : c.Proceeds e := by
  induction h with
  | refl => exact h'
  | next hc _ ih => exact .next hc (ih h')

/-- The cursor has moved over as many of the tokens as it has made moves, and over `k` of them at
most. -/
structure UpTo (ts : List Token) (k : Nat) (c : Cursor) : Prop where
  ahead : c.ahead = ts.drop c.moves
  moves : c.moves ≤ k

/-- A move from a token that is not the end.  The cursor has made fewer than `k` moves before, since
token `k` is an end of the text. -/
theorem UpTo.next {ts : List Token} {k : Nat} {eof : Token} (hk : ts[k]? = some eof)
    (heof : eof.kind = .endOfText) {c : Cursor} (h : c.UpTo ts k) (hc : c.kind ≠ .endOfText) :
    c.next.UpTo ts k := by
  have hcurrent : ts[c.moves]? = some c.current := by
    rw [← List.head?_drop, ← h.ahead, Cursor.ahead, List.head?_cons]
  have hlt : c.moves < k := by
    refine Nat.lt_of_le_of_ne h.moves fun heq ↦ hc ?_
    rw [heq, hk] at hcurrent
    rw [kind, ← Option.some.inj hcurrent, heof]
  have hrest : c.rest = ts.drop (c.moves + 1) := by
    rw [← List.tail_drop, ← h.ahead, Cursor.ahead, List.tail_cons]
  have hne : c.rest ≠ [] := by
    rw [hrest, Ne, List.drop_eq_nil_iff]
    have hlen := (List.getElem?_eq_some_iff.1 hk).1
    omega
  obtain ⟨t, us, hus⟩ := List.exists_cons_of_ne_nil hne
  have hnext : c.next = ⟨t, us, c.moves + 1⟩ := by rw [Cursor.next, hus]
  rw [hnext]
  exact ⟨by rw [Cursor.ahead, ← hus, hrest], hlt⟩

/-- Moves from other tokens than the end do not lead behind it. -/
theorem UpTo.of_proceeds {ts : List Token} {k : Nat} {eof : Token} (hk : ts[k]? = some eof)
    (heof : eof.kind = .endOfText) {c d : Cursor} (h : c.Proceeds d) (hc : c.UpTo ts k) :
    d.UpTo ts k := by
  induction h with
  | refl => exact hc
  | next hkind _ ih => exact ih (hc.next hk heof hkind)

/-- At the start no move has been made. -/
theorem upTo_of_ofTokens? {ts : List Token} {c : Cursor} (h : ofTokens? ts = some c) (k : Nat) :
    c.UpTo ts k := by
  cases ts with
  | nil => cases h
  | cons t us =>
    cases h
    exact ⟨rfl, Nat.zero_le k⟩

end Cursor

/-! ## Actions that stop at the end

One rule for every way to build an action.  The rule for a sequence gives the second action the
cursor where the first one has left off, and the result that it had there.

A cursor is moved by `advance` and by the actions that expect a token, so these are the ones with a
condition.  Where the grammar uses `advance`, the current token has been looked at before, and
`peek_kind` and `ite` carry what was seen to the place where it is needed. -/

namespace Parse

variable {α β : Type}

/-- The cursor at the end of an action, which has given something or has stopped there. -/
def final (m : Parse α) (c : Cursor) : Cursor :=
  match m c with
  | .ok _ d | .error _ d => d

/-- The action, started from `c`, does not move on from the end of the text. -/
def Halts (m : Parse α) (c : Cursor) : Prop := c.Proceeds (m.final c)

namespace Halts

variable {m : Parse α} {f : α → Parse β} {c : Cursor}

theorem of_eq {m' : Parse α} (h : m c = m' c) (hm' : m'.Halts c) : m.Halts c := by
  rw [Halts, final, h]
  exact hm'

theorem of_ok {a : α} (h : m c = .ok a c) : m.Halts c := by
  rw [Halts, final, h]
  exact .refl

theorem of_error {s : Stop} (h : m c = .error s c) : m.Halts c := by
  rw [Halts, final, h]
  exact .refl

theorem pure (a : α) : (Pure.pure a : Parse α).Halts c := of_ok rfl

theorem throw (s : Stop) : (throw s : Parse α).Halts c := of_error rfl

theorem fail (x : Diagnostic) : (fail x : Parse α).Halts c := of_error rfl

theorem unexpected (message : String) : (unexpected message : Parse α).Halts c := of_error rfl

theorem advance (hc : c.kind ≠ .endOfText) : Parse.advance.Halts c := .next hc .refl

/-- A token that is expected is moved over only if it is there. -/
theorem expectOr {k : Kind} (hk : k ≠ .endOfText) (d : Option Diagnostic) :
    (expectOr k d).Halts c := by
  rw [Halts, final, expectOr_apply]
  by_cases hc : c.kind = k
  · rw [if_pos hc]
    exact .next (hc ▸ hk) .refl
  · rw [if_neg hc]
    exact .refl

theorem expect {k : Kind} (hk : k ≠ .endOfText) : (expect k).Halts c := expectOr hk none

/-- One action after the other; the second one goes on from where the first has left off. -/
theorem bind (hm : m.Halts c) (hf : ∀ a d, m c = .ok a d → (f a).Halts d) : (m >>= f).Halts c := by
  cases h : m c with
  | error s d =>
    rw [Halts, final, h] at hm
    rw [Halts, final, bind_of_error h]
    exact hm
  | ok a d =>
    rw [Halts, final, h] at hm
    rw [Halts, final, bind_of_ok h]
    exact hm.trans (hf a d h)

/-- A sequence whose second action stops at the end from everywhere. -/
theorem seq (hm : m.Halts c) (hf : ∀ a d, (f a).Halts d) : (m >>= f).Halts c :=
  hm.bind fun a d _ ↦ hf a d

/-- Looking at the current token before going on. -/
theorem peek {a : α} (hm : m c = .ok a c) (hf : (f a).Halts c) : (m >>= f).Halts c :=
  of_eq (bind_of_ok hm f) hf

theorem peek_kind {f : Kind → Parse β} (hf : (f c.kind).Halts c) : (kind >>= f).Halts c :=
  peek (kind_apply c) hf

theorem peek_current {f : Token → Parse β} (hf : (f c.current).Halts c) : (current >>= f).Halts c :=
  peek (current_apply c) hf

theorem peek_position {f : Position → Parse β} (hf : (f c.position).Halts c) :
    (position >>= f).Halts c :=
  peek (position_apply c) hf

theorem expectDetailed {k : Kind} (hk : k ≠ .endOfText) (message : String) :
    (expectDetailed k message).Halts c :=
  peek rfl (expectOr hk _)

theorem ite {P : Prop} [Decidable P] {m' : Parse α} (hm : P → m.Halts c) (hm' : ¬ P → m'.Halts c) :
    (if P then m else m').Halts c := by
  by_cases hP : P
  · rw [if_pos hP]
    exact hm hP
  · rw [if_neg hP]
    exact hm' hP

end Halts

end Parse

/-! ## The rules of the grammar

In the order of the grammar.  The rules take the rules they are built from as parameters, and so do
the lemmas; fuel is tied up at the end of each group by an induction.

That the current token is not the end of the text is a hypothesis only where a rule starts with a
move.  It holds wherever such a rule is called, because the token was found in a table in which the
end of the text does not occur. -/

namespace Grammar

open Parse

/-! ### Expressions

The opening of an expression starts with a move, and so does what an expression goes on with.  Both
are called after the current token was found in the table. -/

section Expressions

variable {expr : Power → Parse Expr} (hexpr : ∀ p c, (expr p).Halts c) {c : Cursor}

include hexpr

theorem opening_halts (hc : c.kind ≠ .endOfText) (rule : Opening) :
    (opening expr rule).Halts c := by
  cases rule with
  | primary =>
    refine .seq (.advance hc) fun t d ↦ ?_
    cases primary t with
    | ok e => exact .pure e
    | error x => exact .fail x
  | unary =>
    refine .seq (.advance hc) fun t d ↦ ?_
    cases UnaryOp.ofKind? t.kind with
    | none => exact .fail _
    | some op => exact .seq (hexpr _ _) fun _ _ ↦ .pure _
  | grouping =>
    exact .seq (.advance hc) fun _ _ ↦ .seq (hexpr _ _) fun _ _ ↦
      .seq (.expectDetailed (by decide) _) fun _ _ ↦ .pure _

theorem actuals_halts (n : Nat) : ∀ c, (actuals expr n).Halts c := by
  induction n with
  | zero => exact fun _ ↦ .throw _
  | succ n ih =>
    intro c
    refine .seq (hexpr _ _) fun e d ↦ .peek_kind (.ite (fun hcomma ↦ ?_) fun _ ↦ .pure _)
    exact .seq (.advance (by rw [hcomma]; decide)) fun _ _ ↦ .seq (ih _) fun _ _ ↦ .pure _

theorem following_halts (n : Nat) (left : Expr) (p : Power) (hc : c.kind ≠ .endOfText)
    (rule : Following) : (following expr n left p rule).Halts c := by
  cases rule with
  | binary =>
    refine .seq (.advance hc) fun t d ↦ ?_
    cases BinaryOp.ofKind? t.kind with
    | none => exact .fail _
    | some op => exact .seq (hexpr _ _) fun _ _ ↦ .pure _
  | assignment =>
    cases left with
    | var note target =>
      exact .seq (.advance hc) fun _ _ ↦ .seq (hexpr _ _) fun _ _ ↦ .pure _
    | _ => exact .unexpected _
  | call =>
    cases left with
    | var note callee =>
      refine .seq (.advance hc) fun _ d ↦ .peek_kind ?_
      have hclose : ∀ args d, (do
          let _ ← expectDetailed .closeParen "expected ')' after call arguments"
          return Expr.call { position := note.position } callee args).Halts d := fun _ _ ↦
        .seq (.expectDetailed (by decide) _) fun _ _ ↦ .pure _
      exact .ite (fun _ ↦ .seq (.pure _) hclose) fun _ ↦ .seq (actuals_halts hexpr n d) hclose
    | _ => exact .unexpected _

theorem climb_halts (p : Power) (n : Nat) : ∀ left c,
    (climb .standard expr p n left).Halts c := by
  induction n with
  | zero => exact fun _ _ ↦ .throw _
  | succ n ih =>
    intro left c
    refine .peek_current (.ite (fun _ ↦ ?_) fun _ ↦ .pure _)
    cases hrule : Table.standard.following c.current.kind with
    | none => exact .fail _
    | some rule =>
      exact .seq (following_halts hexpr n left _ (Table.kind_ne_endOfText_of_following hrule) rule)
        fun e d ↦ ih e d

end Expressions

theorem exprWithin_halts (n : Nat) : ∀ p c, (exprWithin .standard n p).Halts c := by
  induction n with
  | zero => exact fun _ _ ↦ .throw _
  | succ n ih =>
    intro p c
    refine .peek_current ?_
    cases hrule : Table.standard.opening c.current.kind with
    | none => exact .fail _
    | some rule =>
      exact .seq (opening_halts ih (Table.kind_ne_endOfText_of_opening hrule) rule) fun e d ↦
        climb_halts ih p (n + 1) e d

/-! ### Statements

A block starts with a brace that is expected, so it halts from everywhere.  An `if` starts with a
move, like all statements that have a rule. -/

theorem varDecl_halts {c : Cursor} (hc : c.kind ≠ .endOfText) : varDecl.Halts c :=
  .seq (.advance hc) fun _ _ ↦ .seq (.expectDetailed (by decide) _) fun _ _ ↦
    .seq (.expectDetailed (by decide) _) fun _ _ ↦ .seq (.expect (by decide)) fun _ _ ↦ .pure _

theorem locals_halts (n : Nat) : ∀ c, (locals n).Halts c := by
  induction n with
  | zero => exact fun _ ↦ .throw _
  | succ n ih =>
    intro c
    refine .peek_kind (.ite (fun hvar ↦ ?_) fun _ ↦ .pure _)
    exact .seq (varDecl_halts (by rw [hvar]; decide)) fun _ _ ↦ .seq (ih _) fun _ _ ↦ .pure _

section Statements

variable {expr : Parse Expr} (hexpr : ∀ c, expr.Halts c) {stmt : Parse Stmt}
  (hstmt : ∀ c, stmt.Halts c) {block : Parse Block} (hblock : ∀ c, block.Halts c)

include hstmt in
theorem stmts_halts (n : Nat) : ∀ c, (stmts stmt n).Halts c := by
  induction n with
  | zero => exact fun _ ↦ .throw _
  | succ n ih =>
    intro c
    refine .peek_kind (.ite (fun _ ↦ .pure _) fun _ ↦ ?_)
    exact .seq (hstmt _) fun _ _ ↦ .seq (ih _) fun _ _ ↦ .pure _

include hstmt in
theorem blockOf_halts (n : Nat) (c : Cursor) : (blockOf stmt n).Halts c :=
  .seq (.expectDetailed (by decide) _) fun _ _ ↦ .seq (locals_halts n _) fun _ _ ↦
    .seq (stmts_halts hstmt n _) fun _ _ ↦ .seq (.expectDetailed (by decide) _) fun _ _ ↦ .pure _

include hexpr hblock in
theorem cond_halts (n : Nat) : ∀ {c : Cursor}, c.kind ≠ .endOfText →
    (cond expr block n).Halts c := by
  induction n with
  | zero => exact fun _ ↦ .throw _
  | succ n ih =>
    intro c hc
    refine .seq (.advance hc) fun t _ ↦ .seq (hexpr _) fun e _ ↦ .seq (hblock _) fun b _ ↦
      .peek_kind (.ite (fun helse ↦ ?_) fun _ ↦ .peek_position (.pure _))
    refine .seq (.advance (by rw [helse]; decide)) fun _ _ ↦ .peek_kind (.ite (fun hif ↦ ?_)
      fun _ ↦ .seq (hblock _) fun _ _ ↦ .pure _)
    exact .peek_position (.seq (ih (by rw [hif]; decide)) fun _ _ ↦ .pure _)

include hexpr in
theorem optional_halts (stop : Kind) (c : Cursor) : (optional expr stop).Halts c :=
  .peek_current (.ite (fun _ ↦ .pure _) fun _ ↦ hexpr c)

include hexpr hstmt in
theorem stmtRule_halts (n : Nat) (rule : StmtRule) {c : Cursor} (hc : c.kind ≠ .endOfText) :
    (stmtRule expr stmt n rule).Halts c := by
  have hblock := blockOf_halts hstmt n
  have hoptional := optional_halts hexpr
  cases rule with
  | any => exact hstmt c
  | block => exact .seq (hblock c) fun _ _ ↦ .pure _
  | cond => exact cond_halts hexpr hblock n hc
  | whileLoop =>
    exact .seq (.advance hc) fun _ _ ↦ .seq (hexpr _) fun _ _ ↦ .seq (hblock _) fun _ _ ↦ .pure _
  | forLoop =>
    exact .seq (.advance hc) fun _ _ ↦ .seq (hoptional _ _) fun _ _ ↦
      .seq (.expect (by decide)) fun _ _ ↦ .seq (hoptional _ _) fun _ _ ↦
      .seq (.expect (by decide)) fun _ _ ↦ .seq (hoptional _ _) fun _ _ ↦
      .seq (hblock _) fun _ _ ↦ .pure _
  | ret =>
    exact .seq (.advance hc) fun _ _ ↦ .seq (hoptional _ _) fun _ _ ↦
      .seq (.expect (by decide)) fun _ _ ↦ .pure _
  | jump j =>
    exact .seq (.advance hc) fun _ _ ↦ .seq (.expect (by decide)) fun _ _ ↦ .pure _

end Statements

theorem stmtWithin_halts (n : Nat) : ∀ c, (stmtWithin .standard n).Halts c := by
  induction n with
  | zero => exact fun _ ↦ .throw _
  | succ n ih =>
    intro c
    have hexpr := exprWithin_halts (n + 1) .lowest
    refine .peek_kind ?_
    cases hrule : Table.standard.stmt c.kind with
    | none =>
      refine .ite (fun _ ↦ .unexpected _) fun _ ↦ ?_
      exact .seq (hexpr c) fun _ _ ↦ .seq (.expect (by decide)) fun _ _ ↦ .pure _
    | some rule =>
      refine stmtRule_halts hexpr ih (n + 1) rule fun heof ↦ ?_
      rw [heof] at hrule
      cases hrule

/-! ### Declarations

Parameters are expected token by token.  The list of declarations is the one place where the end of
the text is looked for, and there reading ends without a move. -/

theorem params_halts (n : Nat) : ∀ c, (params n).Halts c := by
  induction n with
  | zero => exact fun _ ↦ .throw _
  | succ n ih =>
    intro c
    refine .seq (.expectDetailed (by decide) _) fun _ _ ↦ .seq (.expectDetailed (by decide) _)
      fun _ _ ↦ .peek_kind (.ite (fun hcomma ↦ ?_) fun _ ↦ .pure _)
    exact .seq (.advance (by rw [hcomma]; decide)) fun _ _ ↦ .seq (ih _) fun _ _ ↦ .pure _

theorem fnDeclWithin_halts (n : Nat) {c : Cursor} (hc : c.kind ≠ .endOfText) :
    (fnDeclWithin .standard n).Halts c := by
  refine .seq (.advance hc) fun t _ ↦ .seq (.expectDetailed (by decide) _) fun name _ ↦
    .seq (.expect (by decide)) fun _ d ↦ .peek_kind ?_
  have hrest : ∀ vars d, (do
      let _ ← expect .closeParen
      let type ← expectDetailed .identifier "expected return type"
      let body ← blockWithin .standard n
      return (⟨name.value, vars, type.value, body, t.start⟩ : FnDecl)).Halts d := fun _ _ ↦
    .seq (.expect (by decide)) fun _ _ ↦ .seq (.expectDetailed (by decide) _) fun _ _ ↦
      .seq (blockOf_halts (stmtWithin_halts n) n _) fun _ _ ↦ .pure _
  exact .ite (fun _ ↦ .seq (.pure _) hrest) fun _ ↦ .seq (params_halts n d) hrest

theorem declWithin_halts (n : Nat) (c : Cursor) : (declWithin .standard n).Halts c := by
  have hread := declWithin_apply n c
  by_cases hvar : c.kind = .varWord
  · rw [if_pos hvar] at hread
    exact .of_eq hread (.seq (varDecl_halts (by rw [hvar]; decide)) fun _ _ ↦ .pure _)
  rw [if_neg hvar] at hread
  by_cases hfunc : c.kind = .funcWord
  · rw [if_pos hfunc] at hread
    exact .of_eq hread (.seq (fnDeclWithin_halts n (by rw [hfunc]; decide)) fun _ _ ↦ .pure _)
  · rw [if_neg hfunc] at hread
    exact .of_eq hread (.unexpected _)

theorem declsWithin_halts (n : Nat) : ∀ c, (declsWithin .standard n).Halts c := by
  induction n with
  | zero => exact fun _ ↦ .throw _
  | succ n ih =>
    intro c
    refine .peek rfl (.ite (fun _ ↦ ?_) fun _ ↦ .pure _)
    exact .seq (declWithin_halts n c) fun _ _ ↦ .seq (ih _) fun _ _ ↦ .pure _

/-- **Reading a program never moves on from the end of the text.** -/
theorem program_halts (c : Cursor) : (program .standard).Halts c :=
  .seq (.peek rfl (declsWithin_halts _ c)) fun _ _ ↦ .pure _

end Grammar

/-! ## Programs

What comes behind the first end is not looked at (`exists_outcome`).  The cursor may be at any place
in a longer list of tokens, as long as those up to the end are ahead of it. -/

/-- What an action gives, or why it stops. -/
def Parse.outcome {α : Type} (m : Parse α) (c : Cursor) : Except Stop α :=
  match m c with
  | .ok a _ => .ok a
  | .error stop _ => .error stop

namespace Program

open Syntax Parse Grammar

/-- A program is its declarations. -/
theorem ofTokens_eq_outcome {ts : List Token} {c : Cursor} (hc : Cursor.ofTokens? ts = some c) :
    ofTokens ts = ((declsWithin .standard (budget c)).outcome c).map Program.mk := by
  cases h : declsWithin .standard (budget c) c with
  | ok ds d =>
    rw [outcome, h, (ofTokens_eq_ok hc).2 ⟨d, program_eq_ok (p := ⟨ds⟩).2 h⟩]
    rfl
  | error stop d =>
    rw [outcome, h, ofTokens_of_error hc h]
    rfl

/-- Tokens up to an end of the text decide on the outcome, and it is a list of declarations or a
diagnostic about one of these tokens, within every budget that is enough for them. -/
theorem exists_outcome (us : List Token) {eof : Token} (heof : eof.kind = .endOfText) :
    ∃ r : Except Diagnostic (List Decl), (∀ x, r = .error x → ∃ t ∈ us ++ [eof], x.Blames t) ∧
      ∀ (n : Nat) (c : Cursor) (vs : List Token), us.length < n → c.ahead = us ++ eof :: vs →
        (declsWithin .standard n).outcome c = r.mapError .error := by
  obtain ⟨t, ws, heq⟩ : ∃ t ws, us ++ [eof] = t :: ws :=
    List.exists_cons_of_ne_nil (List.append_ne_nil_of_right_ne_nil _ (List.cons_ne_nil _ _))
  have hends : Ends (t :: ws) := heq ▸ ⟨eof, by simp, heof⟩
  -- the decision is about the tokens up to the end; in a run, more of them may follow
  have hahead : ∀ {ts' vs' vs : List Token} {t' : Token}, t :: ws = ts' ++ t' :: vs' →
      ts'.length ≤ us.length ∧ us ++ eof :: vs = ts' ++ t' :: (vs' ++ vs) := by
    intro ts' vs' vs t' hws
    rw [← heq] at hws
    have hlen := congrArg List.length hws
    rw [List.length_append, List.length_append, List.length_singleton, List.length_cons] at hlen
    refine ⟨by omega, ?_⟩
    rw [← List.cons_append, ← List.append_assoc, ← hws, List.append_assoc, List.singleton_append]
  cases declsWithin_decides hends with
  | @accepts ts' vs' t' ds hws _ haccepts =>
    refine ⟨.ok ds, nofun, fun n c vs hn hc ↦ ?_⟩
    obtain ⟨hle, heq'⟩ := hahead hws
    obtain ⟨d, hd, -⟩ := haccepts n (Nat.lt_of_le_of_lt hle hn) (hc.trans heq')
    rw [outcome, hd]
    rfl
  | @rejects ts' vs' t' x hws _ hx hrejects =>
    refine ⟨.error x, ?_, fun n c vs hn hc ↦ ?_⟩
    · rintro _ ⟨⟩
      exact ⟨t', by rw [heq, hws]; simp, hx⟩
    · obtain ⟨hle, heq'⟩ := hahead hws
      obtain ⟨d, hd⟩ := hrejects n (Nat.lt_of_le_of_lt hle hn) (hc.trans heq')
      rw [outcome, hd]
      rfl

/-- The same for whole programs. -/
theorem exists_ofTokens (us : List Token) {eof : Token} (heof : eof.kind = .endOfText) :
    ∃ r : Except Diagnostic Program, (∀ x, r = .error x → ∃ t ∈ us ++ [eof], x.Blames t) ∧
      ∀ vs, ∃ c, Cursor.ofTokens? (us ++ eof :: vs) = some c ∧
        ofTokens (us ++ eof :: vs) = r.mapError .error ∧
        ∀ n, us.length < n →
          ((declsWithin .standard n).outcome c).map Program.mk = ofTokens (us ++ eof :: vs) := by
  obtain ⟨r, hblames, hr⟩ := exists_outcome us heof
  refine ⟨r.map Program.mk, fun x hx ↦ hblames x ?_, fun vs ↦ ?_⟩
  · cases r with
    | error y => exact congrArg Except.error (Except.error.inj hx)
    | ok ds => cases hx
  · obtain ⟨c, hc, hahead, hbudget⟩ := @Cursor.exists_ofTokens us vs eof
    rw [ofTokens_eq_outcome hc, hr _ c vs hbudget hahead]
    refine ⟨c, hc, by cases r <;> rfl, fun n hn ↦ ?_⟩
    rw [hr n c vs hn hahead]

/-- **Tokens are read up to the first end of the text and no further.**  If the first end is token
`k`, the reading comes to its own end with a program or a diagnostic, and it does so within every
budget of more than `k` rules.  A cursor that has made at most `k` moves, one for every token that
it has moved over, is still such a cursor after any rule, and so it is when the reading ends.
Tokens that are the same up to the first end are read in the same way. -/
theorem ofTokens_upTo_endOfText {ts : List Token} {k : Nat}
    (hk : ts.findIdx? (·.kind = .endOfText) = some k) :
    (∃ r : Except Diagnostic Program, ofTokens ts = r.mapError .error) ∧
    (∃ c, Cursor.ofTokens? ts = some c ∧ ((program .standard).final c).UpTo ts k ∧
      ∀ n, k < n → ((declsWithin .standard n).outcome c).map Program.mk = ofTokens ts) ∧
    (∀ c : Cursor, c.UpTo ts k → ∀ n, (∀ p, ((exprWithin .standard n p).final c).UpTo ts k) ∧
      ((stmtWithin .standard n).final c).UpTo ts k ∧
      ((declWithin .standard n).final c).UpTo ts k ∧
      ((declsWithin .standard n).final c).UpTo ts k) ∧
    ∀ us, us.take (k + 1) = ts.take (k + 1) → ofTokens us = ofTokens ts := by
  obtain ⟨hlt, hend, -⟩ := List.findIdx?_eq_some_iff_getElem.1 hk
  have heof : ts[k].kind = .endOfText := of_decide_eq_true hend
  have hlen : (ts.take k).length = k := List.length_take_of_le (Nat.le_of_lt hlt)
  have hupTo : ∀ {α : Type} {m : Parse α} {c : Cursor}, c.UpTo ts k → m.Halts c →
      (m.final c).UpTo ts k := fun hc h ↦
    Cursor.UpTo.of_proceeds (List.getElem?_eq_getElem hlt) heof h hc
  have hsplit : ∀ us : List Token, us.take (k + 1) = ts.take (k + 1) →
      us = ts.take k ++ ts[k] :: us.drop (k + 1) := by
    intro us hus
    rw [← List.singleton_append, ← List.append_assoc, List.take_append_getElem, ← hus,
      List.take_append_drop]
  -- all lists that start with these tokens have one outcome, `r`
  obtain ⟨r, -, hr⟩ := exists_ofTokens (ts.take k) heof
  obtain ⟨c, hc, hts, hbudget⟩ := hr (ts.drop (k + 1))
  rw [← hsplit ts rfl] at hc hts hbudget
  rw [hlen] at hbudget
  refine ⟨⟨r, hts⟩, ⟨c, hc, hupTo (Cursor.upTo_of_ofTokens? hc k) (program_halts c), hbudget⟩,
    fun c hc n ↦ ⟨fun p ↦ hupTo hc (exprWithin_halts n p c), hupTo hc (stmtWithin_halts n c),
      hupTo hc (declWithin_halts n c), hupTo hc (declsWithin_halts n c)⟩, fun us hus ↦ ?_⟩
  obtain ⟨-, -, hus', -⟩ := hr (us.drop (k + 1))
  rw [← hsplit us hus] at hus'
  rw [hts, hus']

/-- The tokens of `func f(`, the end of the text, and then the rest of a function. -/
def cutShort : List Token :=
  [(.funcWord, "func"), (.identifier, "f"), (.openParen, "("), (.endOfText, "EOF"),
    (.closeParen, ")"), (.identifier, "void"), (.openCurly, "\x7b"), (.closeCurly, "\x7d"),
    (.endOfText, "EOF")].map fun (kind, value) ↦ ⟨kind, value, default⟩

theorem ofTokens_cutShort_upTo_endOfText :
    cutShort.findIdx? (·.kind = .endOfText) = some 3 ∧
      (∃ c, Cursor.ofTokens? cutShort = some c ∧ ((program .standard).final c).UpTo cutShort 3) ∧
      ∀ us, us.take 4 = cutShort.take 4 → ofTokens us = .error (.error (.located
        (.unexpectedTokenDetailed "EOF" "expected parameter name") default)) := by
  have hfirst : cutShort.findIdx? (·.kind = .endOfText) = some 3 := by decide
  obtain ⟨-, ⟨c, hc, hfinal, -⟩, -, hsame⟩ := ofTokens_upTo_endOfText hfirst
  exact ⟨hfirst, ⟨c, hc, hfinal⟩, fun us hus ↦ (hsame us hus).trans rfl⟩

end Program

end Typewright
