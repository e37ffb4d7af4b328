import Typewright.Proofs.EndOfText
import Typewright.Proofs.Layout
import Typewright.Proofs.Tiling

/-!
# The caret points at the offending character

A diagnostic is shown with the line of the source that it is about and a caret in the line below.
Three ways of counting have to agree for the caret to be in the right place: a scan counts lines and
columns as it goes (`Position.after`), an excerpt looks the line up by its number (`Text.rawLine?`)
and cuts it at both ends, and the caret is put behind an arrow whose length is what is left of the
column.  `Text.exists_rawLine?`  is about the first two and `Diagnostic.pointsAt` about the last
one.

The main result is `Program.exists_pointsAt`: whether the scan stops or the grammar does, the caret
is below the first character of what is in the way, or behind the text if that is at its end.

## What the picture is

The statement is about the text that is shown and not about numbers.  `Diagnostic.PointsAt` cuts the
excerpt at its line breaks, takes the last two lines, and says that the lower one has one caret, at
an index `i`; that the upper one has the offending character at the same index is then what a reader
sees.

Where a caret could go wrong is at the ends of the line.  Spaces in front are not shown, and they
are taken off the column; a tab in front is shown, and it counts as one column.  A carriage return
and blanks at the end are not shown.  So the character itself must not be blank, or it might have
been cut off, and a lexeme starts with none (`Pattern.Lexeme.isBlank_head`).  The end of the text is
the exception, and there the caret is behind all that is shown.
-/

set_option autoImplicit false

namespace Typewright

open Pattern

/-! ## Lines

The scan has a line and a column for the end of a text, and the excerpt has the line with this
number.  Both are found here for the same text: the line has `l` before the place, as long as the
column says. -/

/-- Text without a line break is passed in its line. -/
theorem Position.after_of_not_mem {cs : List Char} (h : '\n' ∉ cs) :
    ∀ p : Position, p.after cs = ⟨p.line, p.column + cs.length⟩ := by
  induction cs with
  | nil => intro p; rfl
  | cons c cs ih =>
    intro p
    rw [List.mem_cons, not_or] at h
    rw [after_cons, step, if_neg fun hc ↦ h.1 hc.symm, ih h.2, List.length_cons]
    simp only [Position.mk.injEq, true_and]
    omega

namespace Text

/-- Cutting at a line break. -/
theorem splitOn_append_break (a b : List Char) :
    (a ++ '\n' :: b).splitOn '\n' = a.splitOn '\n' ++ b.splitOn '\n' :=
  List.splitOnP_append_cons (p := (· == '\n')) a b rfl

theorem splitOn_of_not_mem {l : List Char} (h : '\n' ∉ l) : l.splitOn '\n' = [l] := by
  rw [List.splitOn_eq_splitOnP, List.splitOnP_eq_singleton]
  intro c hc
  exact beq_false_of_ne fun heq ↦ h (heq ▸ hc)

/-- The line where a text `done` ends, as a scan counts it and as it is looked up in a longer text:
it starts with the end `l` of `done` and goes on to the next line break. -/
theorem exists_line (done : List Char) : ∃ (l : List Char) (k : Nat),
    (∀ n, Position.after ⟨n, 1⟩ done = ⟨n + k, l.length + 1⟩) ∧
    ∀ rest, rawLine? (k + 1) (done ++ rest) = some (l ++ rest.takeWhile (· ≠ '\n')) := by
  -- one line of `done` is passed at a time
  induction hlen : done.length using Nat.strong_induction_on generalizing done with
  | _ m ih =>
  have hline : ∀ {a : List Char}, '\n' ∉ a → ∀ c ∈ a, decide (c ≠ '\n') = true := fun ha c hc ↦
    decide_eq_true fun heq ↦ ha (heq ▸ hc)
  by_cases hmem : '\n' ∈ done
  · obtain ⟨a, b, rfl, ha⟩ := List.eq_append_cons_of_mem hmem
    have hb : b.length < m := by
      rw [← hlen, List.length_append, List.length_cons]
      omega
    obtain ⟨l, k, hafter, hraw⟩ := ih _ hb b rfl
    refine ⟨l, k + 1, fun n ↦ ?_, fun rest ↦ ?_⟩
    · rw [Position.after_append, Position.after_of_not_mem ha, Position.after_cons, Position.step,
        if_pos rfl, hafter, Nat.add_right_comm, Nat.add_assoc]
    · rw [List.append_assoc, List.cons_append, rawLine?,
        List.dropWhile_append_of_pos (hline ha), List.dropWhile_cons_of_neg (by simp)]
      exact hraw rest
  · refine ⟨done, 0, fun n ↦ ?_, fun rest ↦ ?_⟩
    · rw [Position.after_of_not_mem hmem, Nat.add_zero, Nat.add_comm]
    · rw [rawLine?, List.takeWhile_append_of_pos (hline hmem)]

/-- The same for a text from its start. -/
theorem exists_rawLine? (done rest : List Char) : ∃ (l : List Char) (k : Nat),
    Position.origin.after done = ⟨k + 1, l.length + 1⟩ ∧
    rawLine? (k + 1) (done ++ rest) = some (l ++ rest.takeWhile (· ≠ '\n')) := by
  obtain ⟨l, k, hafter, hraw⟩ := exists_line done
  refine ⟨l, k, ?_, hraw rest⟩
  rw [Nat.add_comm k]
  exact hafter 1

/-! ## Trimming

A character that is kept protects all that is before it.  No line contains a line break, also after
trimming, so the lines of the excerpt can be found again by cutting at the breaks. -/

/-- What is cut off comes after every character that is kept. -/
theorem trimRight_append_cons {p : Char → Bool} {c : Char} (hc : p c = false) (a b : List Char) :
    trimRight p (a ++ c :: b) = a ++ c :: trimRight p b := by
  have hrev : (a ++ c :: b).reverse = b.reverse ++ c :: a.reverse := by simp
  have hstop : (c :: a.reverse).dropWhile p = c :: a.reverse :=
    List.dropWhile_cons_of_neg (by simp [hc])
  rw [trimRight, trimRight, hrev, List.dropWhile_append, hstop]
  by_cases hb : (b.reverse.dropWhile p).isEmpty
  · simp [List.isEmpty_iff.1 hb]
  · simp [hb]

theorem trimRight_prefix (p : Char → Bool) (cs : List Char) : trimRight p cs <+: cs := by
  rw [← List.reverse_suffix, trimRight, List.reverse_reverse]
  exact List.dropWhile_suffix p

/-- A line contains no line break. -/
theorem not_mem_of_rawLine? {n : Nat} : ∀ {cs l : List Char},
    rawLine? n cs = some l → '\n' ∉ l := by
  induction n with
  | zero => nofun
  | succ n ih =>
    intro cs l h
    cases n with
    | zero =>
      obtain rfl := Option.some.inj h
      intro hmem
      have hline := List.all_eq_true.1 List.all_takeWhile _ hmem
      exact of_decide_eq_true hline rfl
    | succ n =>
      rw [rawLine?] at h
      cases hcs : cs.dropWhile (· ≠ '\n') with
      | nil => rw [hcs] at h; cases h
      | cons _ rest => rw [hcs] at h; exact ih h

end Text

/-! ## The line of the source in an excerpt

The line without its end and without the spaces in front.  The number of these spaces is given
along, since the arrow of the caret is shorter by as many. -/

namespace Diagnostic

/-- A line of the source as an excerpt shows it. -/
theorem excerptLine_eq {source : String} {n : Nat} {raw text : List Char}
    (hraw : Text.rawLine? n source.toList = some raw)
    (htext : Text.trimRight (· = '\r') raw = text) :
    excerptLine source n
      = (Text.trimRight Text.isBlank (text.drop (text.takeWhile (· = ' ')).length),
        (text.takeWhile (· = ' ')).length) := by
  rw [excerptLine, Text.line?, hraw, Option.map_some, htext, Option.getD_some,
    String.toList_ofList]

theorem not_mem_excerptLine (source : String) (n : Nat) : '\n' ∉ (excerptLine source n).1 := by
  cases hraw : Text.rawLine? n source.toList with
  | none =>
    rw [excerptLine, Text.line?, hraw]
    simp [Text.trimRight]
  | some raw =>
    rw [excerptLine_eq hraw rfl]
    intro hmem
    have hdrop := List.mem_of_mem_drop ((Text.trimRight_prefix _ _).subset hmem)
    exact Text.not_mem_of_rawLine? hraw ((Text.trimRight_prefix _ _).subset hdrop)

/-- A character that is not blank is shown, and its column is its place in what is shown and the
spaces that were dropped in front. -/
theorem exists_excerptLine_char {source : String} {done r : List Char} {c : Char}
    (hsource : source.toList = done ++ c :: r) (hc : Text.isBlank c = false) :
    ∃ k, (Position.origin.after done).column
        = (excerptLine source (Position.origin.after done).line).2 + k + 1 ∧
      (excerptLine source (Position.origin.after done).line).1[k]? = some c := by
  have hne : ∀ d, Text.isBlank d = true → c ≠ d := by
    rintro d hd rfl
    rw [hc] at hd
    cases hd
  obtain ⟨l, n, hposition, hraw⟩ := Text.exists_rawLine? done (c :: r)
  rw [← hsource, List.takeWhile_cons_of_pos (by simpa using hne '\n' rfl)] at hraw
  rw [hposition, excerptLine_eq hraw (Text.trimRight_append_cons (by simpa using hne '\r' rfl) _ _)]
  generalize Text.trimRight (· = '\r') (r.takeWhile (· ≠ '\n')) = m
  -- only spaces before `c` are dropped, and nothing up to `c` is cut off behind
  have hspaces : (l ++ c :: m).takeWhile (· = ' ') = l.takeWhile (· = ' ') := by
    rw [List.takeWhile_append, List.takeWhile_cons_of_neg (by simpa using hne ' ' rfl),
      List.append_nil]
    split
    · exact ((List.takeWhile_prefix _).eq_of_length ‹_›).symm
    · rfl
  have hle : (l.takeWhile (· = ' ')).length ≤ l.length := (List.takeWhile_prefix _).length_le
  rw [hspaces, List.drop_append_of_le_length hle, Text.trimRight_append_cons hc]
  refine ⟨l.length - (l.takeWhile (· = ' ')).length, by dsimp only; omega, ?_⟩
  rw [← List.length_drop]
  simp

/-- The end of the text is not shown: its column is behind what is shown. -/
theorem exists_excerptLine_end (source : String) :
    ∃ k, (Position.origin.after source.toList).column
        = (excerptLine source (Position.origin.after source.toList).line).2 + k + 1 ∧
      (excerptLine source (Position.origin.after source.toList).line).1.length ≤ k := by
  obtain ⟨l, n, hposition, hraw⟩ := Text.exists_rawLine? source.toList []
  rw [List.append_nil, List.takeWhile_nil, List.append_nil] at hraw
  rw [hposition, excerptLine_eq hraw rfl]
  have htext := (Text.trimRight_prefix (· = '\r') l).length_le
  generalize Text.trimRight (· = '\r') l = text at htext
  have hspaces : (text.takeWhile (· = ' ')).length ≤ text.length :=
    (List.takeWhile_prefix _).length_le
  have hshown := (Text.trimRight_prefix Text.isBlank
    (text.drop (text.takeWhile (· = ' ')).length)).length_le
  rw [List.length_drop] at hshown
  exact ⟨l.length - (text.takeWhile (· = ' ')).length, by dsimp only; omega, by dsimp only; omega⟩

/-! ## The caret below it

Both lines start with a margin of the same width, which is that of the number of the line and three
characters more.  Behind the margin the index in the line is the index in what is shown. -/

/-- The line that an excerpt shows: its number, and then what is shown of it. -/
def shownLine (source : String) (n : Nat) : List Char :=
  (toString n).toList ++ ' ' :: '|' :: ' ' :: (excerptLine source n).1

theorem getElem?_shownLine (source : String) (n k : Nat) :
    (shownLine source n)[(toString n).length + 3 + k]? = (excerptLine source n).1[k]? := by
  rw [shownLine, ← String.length_toList, Nat.add_assoc, List.getElem?_append_right (by omega)]
  simp [Nat.add_comm 3]

theorem length_shownLine (source : String) (n : Nat) :
    (shownLine source n).length = (toString n).length + 3 + (excerptLine source n).1.length := by
  rw [shownLine, List.length_append, String.length_toList]
  simp only [List.length_cons]
  omega

theorem not_mem_toString (n : Nat) : '\n' ∉ (toString n).toList := by
  intro hmem
  rw [Nat.toString_eq_repr, Nat.repr, String.toList_ofList] at hmem
  have hdigit := Nat.isDigit_of_mem_toDigits (by decide) (by decide) hmem
  cases hdigit

theorem not_mem_shownLine (source : String) (n : Nat) : '\n' ∉ shownLine source n := by
  rw [shownLine, List.mem_append]
  rintro (hmem | hmem)
  · exact not_mem_toString n hmem
  · simp [not_mem_excerptLine] at hmem

/-- An excerpt, cut at its line breaks, ends with the line `shown` and a line with one caret, which
has index `i`. -/
def PointsAt (d : Diagnostic) (file source : String) (shown : List Char) (i : Nat) : Prop :=
  ∃ (p : Position) (front : List (List Char)) (caret : List Char), d.position = some p ∧
    shown = shownLine source p.line ∧
    (d.excerpt file source).toList.splitOn '\n' = front ++ [shown, caret, []] ∧
    ∀ j, caret[j]? = some '^' ↔ j = i

theorem getElem?_concat_iff {α : Type} {l : List α} {a : α} (h : a ∉ l) {j : Nat} :
    (l ++ [a])[j]? = some a ↔ j = l.length := by
  constructor
  · intro hj
    rcases Nat.lt_trichotomy j l.length with hlt | heq | hgt
    · rw [List.getElem?_append_left hlt] at hj
      exact absurd (List.mem_of_getElem? hj) h
    · exact heq
    · rw [List.getElem?_eq_none (by rw [List.length_append, List.length_singleton]; omega)] at hj
      cases hj
  · rintro rfl
    exact List.getElem?_concat_length

/-- The line below the shown one, where the caret is `k` characters after the start of the text. -/
def caretLine (n k : Nat) : List Char :=
  (List.replicate ((toString n).length + 1) ' ' ++ '|' :: ' ' :: List.replicate k '-') ++ ['^']

theorem getElem?_caretLine_iff {n k j : Nat} :
    (caretLine n k)[j]? = some '^' ↔ j = (toString n).length + 3 + k := by
  rw [caretLine, getElem?_concat_iff (by simp)]
  simp only [List.length_append, List.length_cons, List.length_replicate]
  constructor <;> intro <;> omega

theorem not_mem_caretLine (n k : Nat) : '\n' ∉ caretLine n k := by
  simp [caretLine]

/-- **The caret is under the column**, if that is not among the spaces that were dropped. -/
theorem pointsAt {d : Diagnostic} {p : Position} (hp : d.position = some p) (file source : String)
    {k : Nat} (hk : p.column = (excerptLine source p.line).2 + k + 1) :
    d.PointsAt file source (shownLine source p.line) ((toString p.line).length + 3 + k) := by
  have hcolumn : p.column - (excerptLine source p.line).2 = k + 1 := by omega
  have hexcerpt : ∃ front, (d.excerpt file source).toList = front ++ '\n' ::
      (shownLine source p.line ++ '\n' :: (caretLine p.line k ++ '\n' :: [])) := by
    refine ⟨("Error: " ++ d.issue.name ++ " (" ++ d.issue.message ++ ")\n" ++ "-> " ++ file ++ ":"
      ++ p.text ++ "\n"
      ++ String.ofList (['|'].leftpad ((toString p.line).length + 2) ' ')).toList, ?_⟩
    rw [excerpt, hp]
    simp only [hcolumn, shownLine, caretLine, List.leftpad, String.toList_append,
      String.toList_ofList, List.append_assoc]
    rfl
  obtain ⟨front, hfront⟩ := hexcerpt
  refine ⟨p, front.splitOn '\n', caretLine p.line k, hp, rfl, ?_,
    fun j ↦ getElem?_caretLine_iff⟩
  rw [hfront, Text.splitOn_append_break, Text.splitOn_append_break, Text.splitOn_append_break,
    Text.splitOn_of_not_mem (not_mem_shownLine source p.line),
    Text.splitOn_of_not_mem (not_mem_caretLine p.line k), List.splitOn_nil]
  rfl

end Diagnostic

/-! ## What is in the way

Neither a character that no pattern fits nor the first character of a lexeme is blank. -/

namespace Pattern

/-- A character where no pattern fits is not blank. -/
theorem isBlank_of_first?_eq_none {c : Char} {r : List Char} (h : first? (c :: r) = none) :
    Text.isBlank c = false := by
  refine Bool.eq_false_iff.2 fun hc ↦ ?_
  refine first?_eq_none_iff.1 h blanks (by decide) [c] (List.prefix_append [c] r) ⟨nofun, ?_⟩
  simpa using hc

end Pattern

/-- A lexeme does not start with a blank. -/
theorem Pattern.Lexeme.isBlank_head {c : Char} {l : List Char} {kind : Kind} {value : String}
    (h : Lexeme Denotes (c :: l) kind value) : Text.isBlank c = false := by
  refine Bool.eq_false_iff.2 fun hc ↦ ?_
  generalize hl : c :: l = lexeme at h
  cases h with
  | fixed hspelling =>
    have hblank := Pattern.any_isBlank_spelling hspelling
    rw [← hl, List.any_cons, hc] at hblank
    cases hblank
  | identifier hword =>
    obtain ⟨d, m, heq, hd, -⟩ := hword
    obtain ⟨rfl, -⟩ := List.cons.inj (hl.trans heq)
    rw [Pattern.isWordStart_of_isBlank hc] at hd
    cases hd
  | number hnumber =>
    obtain ⟨d, m, heq, hd⟩ := Pattern.Number.exists_cons hnumber
    obtain ⟨rfl, -⟩ := List.cons.inj (hl.trans heq)
    rw [Pattern.isDigit_of_isBlank hc] at hd
    cases hd
  | string =>
    obtain ⟨rfl, -⟩ := List.cons.inj hl
    cases hc

/-- Every token of a tiling is the end of the text or has a lexeme at its place. -/
theorem Tiles.exists_of_mem {done rest : List Char} {ts : List Token} (h : Tiles done rest ts)
    {t : Token} (ht : t ∈ ts) :
    t = Token.endAt (Position.origin.after (done ++ rest)) ∨
      ∃ before c l after, done ++ rest = before ++ (c :: l ++ after) ∧
        Lexeme Denotes (c :: l) t.kind t.value ∧
        t.start = Position.origin.after before := by
  induction h with
  | last hg =>
    rw [List.mem_singleton] at ht
    exact .inl ht
  | @token done g l rest kind value ts hg hne hl h ih =>
    have hsource : done ++ (g ++ (l ++ rest)) = done ++ g ++ l ++ rest := by
      simp only [List.append_assoc]
    rcases List.mem_cons.1 ht with rfl | ht
    · obtain ⟨c, l, rfl⟩ := List.exists_cons_of_ne_nil hne
      exact .inr ⟨done ++ g, c, l, rest, by rw [hsource, List.append_assoc], hl, rfl⟩
    · rw [hsource]
      exact ih ht

/-- A diagnostic is shown at the start of the token that it is about. -/
theorem Diagnostic.Blames.position_eq {d : Diagnostic} {t : Token} (h : d.Blames t) :
    d.position = some t.start := by
  cases h <;> rfl

/-! ## Sources

The two ways in which a source is refused before it is checked.  The tokens of the grammar come from
a scan, so each of them has a lexeme in the source by the tiling, or is the end of the text. -/

namespace Program

/-- A diagnostic of the grammar is about one of the tokens. -/
theorem exists_blames_of_error {us : List Token} {eof : Token} (heof : eof.kind = .endOfText)
    {stop : Stop} (h : ofTokens (us ++ [eof]) = .error stop) :
    ∃ d t, stop = .error d ∧ t ∈ us ++ [eof] ∧ d.Blames t := by
  obtain ⟨r, hblames, hr⟩ := exists_ofTokens us heof
  obtain ⟨-, -, hread, -⟩ := hr []
  rw [h] at hread
  cases r with
  | ok p => cases hread
  | error d =>
    obtain ⟨t, ht, hd⟩ := hblames d rfl
    exact ⟨d, t, Except.error.inj hread, ht, hd⟩

/-- **The caret points at the offending character.**  If the scan stops, the caret is below the
character where no pattern fits.  If the grammar stops, its diagnostic is about one of the tokens,
and the caret is below the first character of the lexeme of this token; if the token is the end of
the text, the caret is behind the text that is shown. -/
theorem exists_pointsAt (file source : String) :
    (∀ d, Token.scan source = .error d →
      ∃ done c r, source.toList = done ++ c :: r ∧
        (∀ q ∈ Pattern.table, ∀ l, l <+: c :: r → ¬ q.Shape l) ∧
        d = .located (.unrecognisedToken (String.singleton c)) (Position.origin.after done) ∧
        ∃ shown i, d.PointsAt file source shown i ∧ shown[i]? = some c) ∧
    ∀ ts stop, Token.scan source = .ok ts → ofTokens ts = .error stop →
      ∃ d t, stop = .error d ∧ t ∈ ts ∧ d.Blames t ∧
        ∃ shown i, d.PointsAt file source shown i ∧
          ((∃ done c l r, source.toList = done ++ (c :: l ++ r) ∧
            Lexeme Denotes (c :: l) t.kind t.value ∧
            t.start = Position.origin.after done ∧ shown[i]? = some c) ∨
          t = Token.endAt (Position.origin.after source.toList) ∧ shown.length ≤ i) := by
  refine ⟨fun d hd ↦ ?_, fun ts stop hts hstop ↦ ?_⟩
  -- the scan stops: the character is not blank, or a pattern would fit
  · obtain ⟨done, c, r, hsource, -, hfirst, rfl⟩ := Token.exists_of_scanFrom_eq_error hd
    obtain ⟨k, hk, hshown⟩ := Diagnostic.exists_excerptLine_char hsource
      (isBlank_of_first?_eq_none hfirst)
    refine ⟨done, c, r, hsource, first?_eq_none_iff.1 hfirst, rfl, _, _,
      Diagnostic.pointsAt rfl file source hk, ?_⟩
    rw [Diagnostic.getElem?_shownLine, hshown]
  · have htiles : Tiles [] source.toList ts := Token.tiles_scanFrom hts
    -- the grammar stops: the token it blames is a tile of the source
    obtain ⟨us, rfl, -⟩ := htiles.endOfText
    obtain ⟨d, t, rfl, ht, hd⟩ := exists_blames_of_error rfl hstop
    refine ⟨d, t, rfl, ht, hd, ?_⟩
    rcases htiles.exists_of_mem ht with rfl | ⟨done, c, l, r, hsource, hl, hstart⟩
    · obtain ⟨k, hk, hshown⟩ := Diagnostic.exists_excerptLine_end source
      refine ⟨_, _, Diagnostic.pointsAt hd.position_eq file source hk, .inr ⟨rfl, ?_⟩⟩
      rw [Diagnostic.length_shownLine]
      exact Nat.add_le_add_left hshown _
    · rw [List.cons_append] at hsource
      obtain ⟨k, hk, hshown⟩ := Diagnostic.exists_excerptLine_char hsource hl.isBlank_head
      refine ⟨_, _, Diagnostic.pointsAt (hstart ▸ hd.position_eq) file source hk,
        .inl ⟨done, c, l, r, hsource, hl, hstart, ?_⟩⟩
      rw [Diagnostic.getElem?_shownLine, hshown]

/-- The tokens of `  var = 1;`. -/
def typeless : List Token :=
  [⟨.varWord, "var", ⟨1, 3⟩, ⟨1, 6⟩⟩, ⟨.assignment, "=", ⟨1, 7⟩, ⟨1, 8⟩⟩,
    ⟨.number, "1", ⟨1, 9⟩, ⟨1, 10⟩⟩, ⟨.semicolon, ";", ⟨1, 10⟩, ⟨1, 11⟩⟩, Token.endAt ⟨1, 11⟩]

/-- The tokens of `var Int  `. -/
def unfinished : List Token :=
  [⟨.varWord, "var", ⟨1, 1⟩, ⟨1, 4⟩⟩, ⟨.identifier, "Int", ⟨1, 5⟩, ⟨1, 8⟩⟩, Token.endAt ⟨1, 10⟩]

/-- A stray character after a tab, a declaration without a type, and one that ends too early. -/
theorem exists_pointsAt_samples :
    (∃ d shown i, Token.scan "var Int n;\n  \t#\r" = .error d ∧
      d.PointsAt "n" "var Int n;\n  \t#\r" shown i ∧ shown[i]? = some '#') ∧
    (∃ d shown i, Token.scan "  var = 1;" = .ok typeless ∧
      ofTokens typeless = .error (.error d) ∧
      d.PointsAt "n" "  var = 1;" shown i ∧ shown[i]? = some '=') ∧
    ∃ d shown i, Token.scan "var Int  " = .ok unfinished ∧
      ofTokens unfinished = .error (.error d) ∧
      d.PointsAt "n" "var Int  " shown i ∧ shown.length ≤ i := by
  refine ⟨?_, ?_, ?_⟩
  · have hscan : Token.scan "var Int n;\n  \t#\r"
        = .error (.located (.unrecognisedToken "#") ⟨2, 4⟩) := by decide +kernel
    obtain ⟨done, c, r, -, -, hd, shown, i, hpoints, hshown⟩ := (exists_pointsAt "n" _).1 _ hscan
    have hc : "#" = String.singleton c :=
      Issue.unrecognisedToken.inj (congrArg Diagnostic.issue hd)
    have hc' : ['#'] = [c] := (congrArg String.toList hc).trans (String.toList_singleton c)
    cases hc'
    exact ⟨_, shown, i, hscan, hpoints, hshown⟩
  · have hscan : Token.scan "  var = 1;" = .ok typeless := by decide +kernel
    have hread : ofTokens typeless = .error (.error (.located (.unexpectedTokenDetailed "="
        "expected type name in variable declaration") ⟨1, 7⟩)) := rfl
    have htoken : ∀ t ∈ typeless, t.start = ⟨1, 7⟩ → t.kind = .assignment ∧ t.value = "=" := by
      decide
    obtain ⟨d, t, hd, ht, hblames, shown, i, hpoints, hcase⟩ :=
      (exists_pointsAt "n" _).2 _ _ hscan hread
    cases hd
    obtain ⟨hkind, hvalue⟩ := htoken t ht (Option.some.inj hblames.position_eq).symm
    rcases hcase with ⟨done, c, l, r, -, hl, -, hshown⟩ | ⟨rfl, -⟩
    · rw [hkind, hvalue] at hl
      have hlexeme : c :: l = ['='] := by
        generalize c :: l = m at hl
        cases hl
        rfl
      cases hlexeme
      exact ⟨_, shown, i, hscan, hread, hpoints, hshown⟩
    · cases hkind
  · have hscan : Token.scan "var Int  " = .ok unfinished := by decide +kernel
    have hread : ofTokens unfinished = .error (.error (.located (.unexpectedTokenDetailed "EOF"
        "expected identifier during variable declaration") ⟨1, 10⟩)) := rfl
    have htoken : ∀ t ∈ unfinished, t.start = ⟨1, 10⟩ → t.kind = .endOfText := by decide
    obtain ⟨d, t, hd, ht, hblames, shown, i, hpoints, hcase⟩ :=
      (exists_pointsAt "n" _).2 _ _ hscan hread
    cases hd
    have hkind := htoken t ht (Option.some.inj hblames.position_eq).symm
    rcases hcase with ⟨done, c, l, r, -, hl, -, -⟩ | ⟨-, hle⟩
    · exact absurd hkind hl.kind_ne_endOfText
    · exact ⟨_, shown, i, hscan, hread, hpoints, hle⟩

end Program

end Typewright
