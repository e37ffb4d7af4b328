import Typewright.Proofs.Lexeme
import Typewright.Token.Reader
import Typewright.Token.Scan

/-!
# The tokens tile the source

A scan loses nothing of the source and makes nothing up.  The text is a row of gaps and lexemes: a
`Gap` is white space and comments, a `Lexeme` is the spelling of a token.  `Tiles done rest ts` says
that `rest`, which comes after `done`, is such a row, that its lexemes are those of `ts`, and that
every token has the place where its lexeme stands.

A scan moves through the source by bytes.  `Reader.Runs` is that loop, one rule for each thing it
can do, and no rule for a reader that is past the end or inside of a character: a run that there is
has never been there.

The main result is `Token.scan_tiles`.

## Places without a state

The scan counts lines and columns as it goes, and a token has the counts of the moment when it is
cut off.  In a tiling there is no such moment.  The place of a token is a function of the text
before it, `Position.origin.after (done ++ g)`, and this is why a tiling carries `done`: the text in
front is all that a place depends on.

## Failing scans

A scan that fails has no tokens, so there is no tiling to speak of.  But the text in front of the
offending character is scanned to its end if it stands alone (`exists_of_scanFrom_eq_error`), and so
it has a tiling of its own.  Here `Pattern.first?_append` is needed: the pieces that were cut off
from the whole text are also cut off from its beginning.
-/

set_option autoImplicit false

namespace Typewright

open Pattern

/-! ## Gaps

A gap is told together with the text behind it.  A comment to the end of the line goes as far as the
line does, and without a look at what follows it could be said to end anywhere. -/

/-- `Gap g r` says that `g` is white space and comments, where `r` comes after it.  A comment that
a line break closes goes on to the end of its line. -/
inductive Gap : List Char → List Char → Prop
  | nil {r : List Char} : Gap [] r
  | blanks {l g r : List Char} (hl : blanks.Shape l) (h : Gap g r) : Gap (l ++ g) r
  | line {l g r : List Char} (hl : lineComment.Shape l) (hend : Leaves (· ≠ '\n') (g ++ r))
      (h : Gap g r) : Gap (l ++ g) r
  | block {l g r : List Char} (hl : blockComment.Shape l) (h : Gap g r) : Gap (l ++ g) r

/-- A piece without a token makes a gap longer, whatever its pattern. -/
theorem Gap.of_piece {p : Pattern} {l g r : List Char} (hnone : p.token? l = none)
    (hshape : p.Shape l) (hstops : p.Stops l (g ++ r)) (h : Gap g r) : Gap (l ++ g) r := by
  cases p with
  | blanks => exact .blanks hshape h
  | lineComment => exact .line hshape hstops h
  | blockComment => exact .block hshape h
  | word => cases hnone
  | number => cases hnone
  | quoted => cases hnone
  | mark kind => cases hnone

/-! ## Tilings

A tiling is built from the end of the text to its start, one piece at a time, as the scan puts its
result together.  A piece without a token joins the gap behind it. -/

/-- The text `rest` after the text `done` is a row of gaps and lexemes, and `ts` are the tokens of
the lexemes, each at its place, with the end of the text behind them. -/
inductive Tiles : List Char → List Char → List Token → Prop
  | last {done g : List Char} (hg : Gap g []) :
      Tiles done g [Token.endAt (Position.origin.after (done ++ g))]
  | token {done g l rest : List Char} {kind : Kind} {value : String} {ts : List Token}
      (hg : Gap g (l ++ rest)) (hne : l ≠ []) (hl : Lexeme Denotes l kind value)
      (h : Tiles (done ++ g ++ l) rest ts) :
      Tiles done (g ++ (l ++ rest))
        (⟨kind, value, Position.origin.after (done ++ g),
          Position.origin.after (done ++ g ++ l)⟩ :: ts)

/-- A piece that stands for no token makes the first gap longer. -/
theorem Tiles.skip {p : Pattern} {done l rest : List Char} {ts : List Token}
    (hnone : p.token? l = none) (hshape : p.Shape l) (hstops : p.Stops l rest)
    (h : Tiles (done ++ l) rest ts) : Tiles done (l ++ rest) ts := by
  generalize hd : done ++ l = before at h
  cases h with
  | last hg =>
    subst hd
    rw [List.append_assoc]
    exact .last (Gap.of_piece hnone hshape (by rwa [List.append_nil]) hg)
  | @token _ g k rest kind value ts hg hne hl h =>
    subst hd
    have h' : Tiles (done ++ (l ++ g) ++ k) rest ts := by rwa [← List.append_assoc done]
    have htoken := Tiles.token (Gap.of_piece hnone hshape hstops hg) hne hl h'
    rwa [← List.append_assoc done, List.append_assoc l] at htoken

/-- A piece in front of a tiling is part of its first gap or one more lexeme. -/
theorem Tiles.piece {p : Pattern} {done l rest : List Char} {ts : List Token} (hne : l ≠ [])
    (hshape : p.Shape l) (hstops : p.Stops l rest) (h : Tiles (done ++ l) rest ts) :
    Tiles done (l ++ rest)
      ((Token.ofMatch? (Position.origin.after done) ⟨p, l, rest⟩).toList ++ ts) := by
  rcases htoken : p.token? l with _ | ⟨kind, value⟩
  · rw [Token.ofMatch?, htoken]
    exact h.skip htoken hshape hstops
  · have h' : Tiles (done ++ [] ++ l) rest ts := by rwa [List.append_nil]
    have htiles := Tiles.token .nil hne (.of_token? htoken hshape) h'
    rw [List.append_nil] at htiles
    rw [Token.ofMatch?, htoken, Option.map_some, ← Position.after_append]
    exact htiles

/-- The one token that marks the end is the last one, and it stands at the end. -/
theorem Tiles.endOfText {done rest : List Char} {ts : List Token} (h : Tiles done rest ts) :
    ∃ us, ts = us ++ [Token.endAt (Position.origin.after (done ++ rest))] ∧
      ∀ t ∈ us, t.kind ≠ .endOfText := by
  induction h with
  | last hg => exact ⟨[], rfl, List.forall_mem_nil _⟩
  | @token done g l rest kind value ts hg hne hl h ih =>
    obtain ⟨us, rfl, hus⟩ := ih
    rw [show done ++ (g ++ (l ++ rest)) = done ++ g ++ l ++ rest by simp only [List.append_assoc]]
    exact ⟨_ :: us, rfl, List.forall_mem_cons.2 ⟨hl.kind_ne_endOfText, hus⟩⟩

namespace Token

/-- What the scan of a text says about the scan behind its first piece. -/
theorem exists_of_scanFrom_eq_ok {p : Position} {cs : List Char} {m : Match} {ts : List Token}
    (hfirst : first? cs = some m) (h : scanFrom p cs = .ok ts) :
    ∃ us, scanFrom (p.after m.lexeme) m.rest = .ok us ∧ ts = (ofMatch? p m).toList ++ us := by
  rw [scanFrom_of_first?_eq_some hfirst] at h
  rcases hrest : scanFrom (p.after m.lexeme) m.rest with d | us
  · rw [hrest] at h
    cases h
  · rw [hrest] at h
    exact ⟨us, rfl, (Except.ok.inj h).symm⟩

/-- The tokens of a scan that comes to the end tile the text. -/
theorem tiles_scanFrom {cs : List Char} : ∀ {done : List Char} {ts : List Token},
    scanFrom (Position.origin.after done) cs = .ok ts → Tiles done cs ts := by
  induction cs using pieces_induction with
  | nil =>
    intro done ts h
    rw [scanFrom_nil] at h
    obtain rfl := Except.ok.inj h
    have hlast : Tiles done [] [endAt (Position.origin.after (done ++ []))] := .last .nil
    rwa [List.append_nil] at hlast
  | stuck c r hfirst =>
    intro done ts h
    rw [scanFrom_of_first?_eq_none hfirst] at h
    cases h
  | piece p l r hfirst ih =>
    intro done ts h
    obtain ⟨-, -, hshape, hstops⟩ := first?_eq_some_iff.1 hfirst
    obtain ⟨us, hus, rfl⟩ := exists_of_scanFrom_eq_ok hfirst h
    rw [← Position.after_append] at hus
    exact (ih hus).piece (first?_spec hfirst).1 hshape hstops

/-- A scan that does not come to the end stops at the first character where no pattern fits; the
text before it is scanned to its end. -/
theorem exists_of_scanFrom_eq_error {cs : List Char} : ∀ {p : Position} {d : Diagnostic},
    scanFrom p cs = .error d →
      ∃ done c r, cs = done ++ c :: r ∧ (∃ ts, scanFrom p done = .ok ts) ∧
        first? (c :: r) = none ∧
        d = .located (.unrecognisedToken (String.singleton c)) (p.after done) := by
  induction cs using pieces_induction with
  | nil =>
    intro p d h
    rw [scanFrom_nil] at h
    cases h
  | stuck c r hfirst =>
    intro p d h
    rw [scanFrom_of_first?_eq_none hfirst] at h
    exact ⟨[], c, r, rfl, ⟨_, scanFrom_nil p⟩, hfirst, (Except.error.inj h).symm⟩
  | piece q l r hfirst ih =>
    intro p d h
    rw [scanFrom_of_first?_eq_some hfirst] at h
    rcases hrest : scanFrom (p.after l) r with e | us
    · rw [hrest] at h
      obtain rfl := Except.error.inj h
      obtain ⟨done, c, s, rfl, ⟨ts, hts⟩, hstuck, he⟩ := ih hrest
      -- the piece is also cut off if the text ends before the offending character
      have hdone := scanFrom_of_first?_eq_some (p := p) (first?_append hfirst)
      rw [hts] at hdone
      refine ⟨l ++ done, c, s, (List.append_assoc _ _ _).symm, ⟨_, hdone⟩, hstuck, ?_⟩
      rw [he, Position.after_append]
    · rw [hrest] at h
      cases h

end Token

/-! ## The loop over the bytes of the source

The reader knows its place as a number of bytes.  `Between` ties this number to a cut of the text
between two characters, and moving on by a piece keeps it (`Between.advance`).  From there on the
loop and the scan make the same steps.

The rules of `Runs` are those of the loop and leave out the cases in which it would break down.
That there is a run from the start of every source is therefore the statement that none of them
comes up, and that there is only one result makes it the result of the program. -/

theorem utf8ByteSize_ofList_cons (c : Char) (cs : List Char) :
    (String.ofList (c :: cs)).utf8ByteSize = c.utf8Size + (String.ofList cs).utf8ByteSize := by
  rw [String.ofList_cons, String.utf8ByteSize_append, String.utf8ByteSize_singleton]

theorem Text.dropBytes?_cons {n : Nat} {c : Char} {cs : List Char} (h : c.utf8Size ≤ n) :
    dropBytes? n (c :: cs) = dropBytes? (n - c.utf8Size) cs := by
  have hpos := c.utf8Size_pos
  obtain ⟨n, rfl⟩ := Nat.exists_eq_add_one.2 (Nat.lt_of_lt_of_le hpos h)
  rw [dropBytes?, if_pos h]

/-- As many bytes as a text has are dropped with it, and no character is cut. -/
theorem Text.dropBytes?_append (done rest : List Char) :
    dropBytes? (String.ofList done).utf8ByteSize (done ++ rest) = some rest := by
  induction done with
  | nil => simp [dropBytes?]
  | cons c done ih =>
    rw [utf8ByteSize_ofList_cons, List.cons_append, dropBytes?_cons (Nat.le_add_right _ _),
      Nat.add_sub_cancel_left, ih]

namespace Reader

/-- The reader stands between `done` and `rest`. -/
structure Between (done rest : List Char) (r : Reader) : Prop where
  source : r.source.toList = done ++ rest
  offset : r.offset = (String.ofList done).utf8ByteSize
  position : r.position = Position.origin.after done

theorem between_ofSource (source : String) : Between [] source.toList (ofSource source) :=
  ⟨rfl, rfl, rfl⟩

/-- Moving on by a piece. -/
theorem Between.advance {done l rest : List Char} {r : Reader} (h : Between done (l ++ rest) r) :
    Between (done ++ l) rest (r.advance (String.ofList l)) := by
  refine ⟨?_, ?_, ?_⟩
  · rw [List.append_assoc]
    exact h.source
  · rw [String.ofList_append, String.utf8ByteSize_append, ← h.offset]
    rfl
  · rw [Position.after_append, ← h.position, Reader.advance, String.toList_ofList]

theorem Between.rest?_eq {done rest : List Char} {r : Reader} (h : Between done rest r) :
    r.rest? = some rest := by
  rw [rest?, h.offset, h.source, Text.dropBytes?_append]

/-- The number of bytes has come to that of the source exactly if no text is left. -/
theorem Between.atEnd_eq {done rest : List Char} {r : Reader} (h : Between done rest r) :
    r.atEnd = rest.isEmpty := by
  have hsize : r.source.utf8ByteSize = r.offset + (String.ofList rest).utf8ByteSize := by
    rw [← String.ofList_toList (s := r.source), h.source, String.ofList_append,
      String.utf8ByteSize_append, h.offset]
  rw [atEnd, hsize]
  rcases rest with _ | ⟨c, rest⟩
  · simp
  · have hpos := c.utf8Size_pos
    rw [utf8ByteSize_ofList_cons, List.isEmpty_cons, decide_eq_false]
    omega

/-- `Runs r result` says that the loop from the reader `r` on comes to an end with `result`. -/
inductive Runs : Reader → Except Diagnostic (List Token) → Prop
  | stop {r : Reader} (hend : r.atEnd = true) (hrest : r.rest? = some []) :
      Runs r (.ok [Token.endAt r.position])
  | stuck {r : Reader} {c : Char} {cs : List Char} (hend : r.atEnd = false)
      (hrest : r.rest? = some (c :: cs)) (hfirst : first? (c :: cs) = none) :
      Runs r (.error (.located (.unrecognisedToken (String.singleton c)) r.position))
  | piece {r : Reader} {cs : List Char} {m : Match} {result : Except Diagnostic (List Token)}
      (hend : r.atEnd = false) (hrest : r.rest? = some cs) (hfirst : first? cs = some m)
      (h : Runs (r.advance (String.ofList m.lexeme)) result) :
      Runs r (result.map ((Token.ofMatch? r.position m).toList ++ ·))

/-- There is one result at most. -/
theorem Runs.unique {r : Reader} {a b : Except Diagnostic (List Token)} (ha : Runs r a)
    (hb : Runs r b) : a = b := by
  induction ha generalizing b with
  | stop hend hrest =>
    cases hb with
    | stop => rfl
    | stuck hend' => cases hend.symm.trans hend'
    | piece hend' => cases hend.symm.trans hend'
  | stuck hend hrest hfirst =>
    cases hb with
    | stop hend' => cases hend.symm.trans hend'
    | stuck _ hrest' =>
      obtain ⟨rfl, rfl⟩ := List.cons.inj (Option.some.inj (hrest.symm.trans hrest'))
      rfl
    | piece _ hrest' hfirst' =>
      obtain rfl := Option.some.inj (hrest.symm.trans hrest')
      cases hfirst.symm.trans hfirst'
  | piece hend hrest hfirst h ih =>
    cases hb with
    | stop hend' => cases hend.symm.trans hend'
    | stuck _ hrest' hfirst' =>
      obtain rfl := Option.some.inj (hrest.symm.trans hrest')
      cases hfirst.symm.trans hfirst'
    | piece _ hrest' hfirst' h' =>
      obtain rfl := Option.some.inj (hrest.symm.trans hrest')
      obtain rfl := Option.some.inj (hfirst.symm.trans hfirst')
      rw [ih h']

/-- The loop over the bytes comes to the result of the scan. -/
theorem runs_scanFrom {rest : List Char} : ∀ {done : List Char} {r : Reader},
    Between done rest r → Runs r (Token.scanFrom (Position.origin.after done) rest) := by
  induction rest using pieces_induction with
  | nil =>
    intro done r h
    rw [Token.scanFrom_nil, ← h.position]
    exact .stop h.atEnd_eq h.rest?_eq
  | stuck c rest hfirst =>
    intro done r h
    rw [Token.scanFrom_of_first?_eq_none hfirst, ← h.position]
    exact .stuck h.atEnd_eq h.rest?_eq hfirst
  | piece p l rest hfirst ih =>
    intro done r h
    rw [Token.scanFrom_of_first?_eq_some hfirst, ← Position.after_append, ← h.position]
    have hne : l ++ rest ≠ [] := List.append_ne_nil_of_left_ne_nil (first?_spec hfirst).1 rest
    have hend : r.atEnd = false := by rw [h.atEnd_eq, List.isEmpty_eq_false_iff.2 hne]
    exact .piece hend h.rest?_eq hfirst (ih h.advance)

end Reader

/-! ## Lines and columns

A column that is counted may be 0 for a place that was made up, so the bound is on the greater of it
and 1.  For a scan, which starts in column 1, this is the column itself. -/

theorem Position.step_le (p : Position) (c : Char) :
    (p.step c).line ≤ p.line + 1 ∧ max 1 (p.step c).column ≤ max 1 p.column + 1 := by
  unfold step
  split <;> dsimp only <;> omega

/-- A character moves the line or the column by one at most. -/
theorem Position.after_le (p : Position) (cs : List Char) :
    (p.after cs).line ≤ p.line + cs.length ∧
      max 1 (p.after cs).column ≤ max 1 p.column + cs.length := by
  induction cs generalizing p with
  | nil => exact ⟨Nat.le_refl _, Nat.le_refl _⟩
  | cons c cs ih =>
    have hstep := p.step_le c
    have hrest := ih (p.step c)
    rw [after_cons, List.length_cons]
    omega

namespace Token

/-- **A scan tiles its source.**  The loop over the bytes of the source comes to an end, at every
turn between two characters, and its result is the scan.  The lines and the columns that it counts
fit into 32 bits if the source is short enough.  A scan with tokens tiles the source, and there
is one token for the end of the text, the last one, at the end.  A scan with an error has scanned
a part of the source to its end, and the error is the character behind that part, where nothing in
the table fits. -/
theorem scan_tiles (source : String) :
    (∀ result, Reader.Runs (.ofSource source) result ↔ result = scan source) ∧
    (source.length < UInt32.size - 1 → ∀ done, done <+: source.toList →
      (Position.origin.after done).line < UInt32.size ∧
        (Position.origin.after done).column < UInt32.size) ∧
    (∀ ts, scan source = .ok ts →
      Tiles [] source.toList ts ∧
      ∃ us, ts = us ++ [endAt (Position.origin.after source.toList)] ∧
        ∀ t ∈ us, t.kind ≠ .endOfText) ∧
    (∀ d, scan source = .error d →
      ∃ p c r, source.toList = p ++ c :: r ∧ (∃ ts, scan (String.ofList p) = .ok ts) ∧
        (∀ q ∈ Pattern.table, ∀ l, l <+: c :: r → ¬ q.Shape l) ∧
        d = .located (.unrecognisedToken (String.singleton c)) (Position.origin.after p)) := by
  refine ⟨fun result ↦ ?_, fun hlen done hdone ↦ ?_, fun ts hts ↦ ?_, fun d hd ↦ ?_⟩
  · have hruns := Reader.runs_scanFrom (Reader.between_ofSource source)
    exact ⟨fun h ↦ h.unique hruns, fun h ↦ h ▸ hruns⟩
  · have hle := hdone.length_le
    rw [String.length_toList] at hle
    obtain ⟨hline, hcolumn⟩ := Position.origin.after_le done
    simp only [Position.origin, Nat.max_self] at hline hcolumn ⊢
    omega
  · have htiles : Tiles [] source.toList ts := tiles_scanFrom hts
    exact ⟨htiles, htiles.endOfText⟩
  · obtain ⟨p, c, r, hsource, hp, hstuck, rfl⟩ := exists_of_scanFrom_eq_error hd
    refine ⟨p, c, r, hsource, ?_, first?_eq_none_iff.1 hstuck, rfl⟩
    rwa [scan, String.toList_ofList]

end Token
end Typewright
