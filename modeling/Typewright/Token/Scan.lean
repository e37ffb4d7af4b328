import Typewright.Report.Diagnostic
import Typewright.Token.Basic
import Typewright.Token.Pattern

/-!
# Scanning

A source text is cut into pieces, each by the first pattern of the table that fits, and the pieces
that stand for a token become tokens.  The list of tokens ends with the end of the text.  The first
character at which no pattern fits stops the scan.

The scan of a text is told from its first piece: `scanFrom_nil`, `scanFrom_of_first?_eq_none` and
`scanFrom_of_first?_eq_some`.
-/

set_option autoImplicit false

namespace Typewright
namespace Token

/-- The tokens of a text that starts at the place `p`. -/
def scanFrom (p : Position) : List Char → Except Diagnostic (List Token)
  | [] => .ok [endAt p]
  | c :: cs =>
    match _h : Pattern.first? (c :: cs) with
    | none => .error (.located (.unrecognisedToken (String.singleton c)) p)
    | some m => do
      let q := p.after m.lexeme
      let ts ← scanFrom q m.rest
      match m.pattern.token? m.lexeme with
      | some (kind, value) => return ⟨kind, value, ⟨p, q⟩⟩ :: ts
      | none => return ts
termination_by cs => cs.length
decreasing_by exact Pattern.length_rest_lt _h

/-- The tokens of a source text. -/
def scan (source : String) : Except Diagnostic (List Token) := scanFrom .origin source.toList

/-! ## One piece at a time

The equations by which a scan is taken apart in proofs.  The definition builds its result inside of
a `match`; here a piece adds the token it stands for, or none, in front. -/

/-- The token that a piece at the place `p` stands for. -/
def ofMatch? (p : Position) (m : Pattern.Match) : Option Token :=
  (m.pattern.token? m.lexeme).map fun (kind, value) ↦ ⟨kind, value, ⟨p, p.after m.lexeme⟩⟩

theorem scanFrom_nil (p : Position) : scanFrom p [] = .ok [endAt p] := by
  rw [scanFrom]

theorem scanFrom_of_first?_eq_none {p : Position} {c : Char} {cs : List Char}
    (h : Pattern.first? (c :: cs) = none) :
    scanFrom p (c :: cs) = .error (.located (.unrecognisedToken (String.singleton c)) p) := by
  rw [scanFrom]
  split
  · rfl
  · rename_i hm
    cases h.symm.trans hm

theorem scanFrom_of_first?_eq_some {p : Position} {cs : List Char} {m : Pattern.Match}
    (h : Pattern.first? cs = some m) :
    scanFrom p cs = (scanFrom (p.after m.lexeme) m.rest).map ((ofMatch? p m).toList ++ ·) := by
  obtain ⟨hne, hcs⟩ := Pattern.first?_spec h
  obtain ⟨c, cs, rfl⟩ : ∃ c r, cs = c :: r := by
    obtain ⟨c, l, hl⟩ := List.exists_cons_of_ne_nil hne
    exact ⟨c, l ++ m.rest, by rw [← hcs, hl, List.cons_append]⟩
  rw [scanFrom]
  split
  · rename_i hnone
    cases h.symm.trans hnone
  · rename_i n hn
    obtain rfl := Option.some.inj (h.symm.trans hn)
    dsimp only [ofMatch?]
    cases scanFrom (p.after m.lexeme) m.rest <;> cases m.pattern.token? m.lexeme <;> rfl

end Token
end Typewright
