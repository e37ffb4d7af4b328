import Mathlib.Data.List.Infix
import Typewright.Token.Pattern

/-!
# The shape of a lexeme

`Pattern.split?`  cuts a piece off a text.  This module says, without a word about how the cut is
made, which pieces are cut off: `Pattern.Shape p l` describes the texts of the pattern, and
`Pattern.Stops p l r` says that the text `r` after the piece does not make it longer.

* `split?_eq_some_iff`: `l` is cut off before `r` exactly if it has the shape and stops there.
* `split?_eq_none_iff`: nothing is cut off exactly if no piece at the start has the shape.
* `first?_append`: what is cut off does not depend on the text far behind it.  A scan that is
  stopped early has read what the whole scan reads.

A piece that stands for a token is its spelling: `Pattern.Lexeme` describes the spellings of a
token, and `Lexeme.of_token?`  says that the scan keeps to it.

## Why two predicates

The shape alone does not determine the piece: every beginning of a word is a word.  That a piece is
as long as possible is a property of what comes after it, and it is another one for each pattern.
Strings, block comments and marks end with a fixed text, and nothing behind them matters.  A number
is the one pattern for which the next character is not enough.  In `1.x` the point does not belong
to the number, because no digit comes after it.

With both predicates the condition is exact, in both directions.  So the modules about layouts,
tilings and longest matches use only these three equivalences and do not open a definition of the
scanner.
-/

set_option autoImplicit false

namespace Typewright
namespace Pattern

/-! ## Shapes

The shapes say what the texts are and not how to recognise them.  A string is described together
with the text that it stands for (`Denotes`), since the two are read by one recursion. -/

/-- A letter or an underscore, then letters, digits and underscores. -/
def Word (l : List Char) : Prop :=
  ∃ c cs, l = c :: cs ∧ isWordStart c ∧ ∀ d ∈ cs, isWordChar d

/-- One digit or more. -/
def Digits (l : List Char) : Prop := l ≠ [] ∧ ∀ c ∈ l, c.isDigit

instance (l : List Char) : Decidable (Digits l) :=
  decidable_of_iff (!l.isEmpty && l.all Char.isDigit) (by simp [Digits])

/-- Digits, with a point and digits after them or without. -/
inductive Number : List Char → Prop
  | whole {l : List Char} (h : Digits l) : Number l
  | point {l m : List Char} (hl : Digits l) (hm : Digits m) : Number (l ++ '.' :: m)

/-- `Denotes inside text` says that `inside`, between quotes, stands for `text`.  An unknown escape
stands for itself. -/
inductive Denotes : List Char → List Char → Prop
  | nil : Denotes [] []
  | plain {c : Char} {inside text : List Char} (hc : c ≠ '"' ∧ c ≠ '\\' ∧ c ≠ '\n')
      (h : Denotes inside text) : Denotes (c :: inside) (c :: text)
  | escape {c d : Char} {inside text : List Char} (hd : unescapeChar? c = some d)
      (h : Denotes inside text) : Denotes ('\\' :: c :: inside) (d :: text)
  | unknown {c : Char} {inside text : List Char} (hc : unescapeChar? c = none) (hn : c ≠ '\n')
      (h : Denotes inside text) : Denotes ('\\' :: c :: inside) ('\\' :: c :: text)

/-- The texts that a pattern describes. -/
def Shape : Pattern → List Char → Prop
  | word, l => Word l
  | number, l => Number l
  | blanks, l => l ≠ [] ∧ ∀ c ∈ l, Text.isBlank c
  | quoted, l => ∃ inside text, Denotes inside text ∧ l = '"' :: (inside ++ ['"'])
  | lineComment, l => ∃ body, '\n' ∉ body ∧ l = '/' :: '/' :: body
  | blockComment, l => ∃ body, ¬ ['*', '/'] <:+: body ∧ l = '/' :: '*' :: (body ++ ['*', '/'])
  | mark kind, l => ∃ text, kind.spelling? = some text ∧ l = text.toList

/-- The text `r` does not start with a character of the class. -/
def Leaves (p : Char → Bool) (r : List Char) : Prop := ∀ c ∈ r.head?, p c = false

/-- A piece `l` of the pattern is not longer if `r` comes after it. -/
def Stops : Pattern → List Char → List Char → Prop
  | word, _, r => Leaves isWordChar r
  | number, l, r =>
    Leaves Char.isDigit r ∧ ('.' ∉ l → ∀ ds, r = '.' :: ds → Leaves Char.isDigit ds)
  | blanks, _, r => Leaves Text.isBlank r
  | lineComment, _, r => Leaves (· ≠ '\n') r
  | quoted, _, _ | blockComment, _, _ | mark _, _, _ => True

theorem Leaves.of_append {p : Char → Bool} {r x : List Char} (h : Leaves p (r ++ x)) :
    Leaves p r :=
  fun c hc ↦ h c (List.mem_head?_append_of_mem_head? hc)

/-- What does not make a piece longer still does not if it ends earlier. -/
theorem Stops.of_append {p : Pattern} {l r x : List Char} (h : p.Stops l (r ++ x)) :
    p.Stops l r := by
  cases p with
  | word => exact Leaves.of_append h
  | number =>
    refine ⟨Leaves.of_append h.1, fun hl ds hr ↦ ?_⟩
    have hx : r ++ x = '.' :: (ds ++ x) := by rw [hr, List.cons_append]
    exact Leaves.of_append (h.2 hl (ds ++ x) hx)
  | blanks => exact Leaves.of_append h
  | lineComment => exact Leaves.of_append h
  | quoted => trivial
  | blockComment => trivial
  | mark kind => trivial

/-! ## Runs of one class of characters

Words, numbers, blanks and comments to the end of the line end with a run of a class, which is
`takeWhile`.  A run is the longest if what comes after it leaves the class. -/

theorem leaves_dropWhile (p : Char → Bool) (cs : List Char) : Leaves p (cs.dropWhile p) := by
  intro c hc
  have h := List.head?_dropWhile_not p cs
  rw [Option.mem_def.1 hc] at h
  exact h

theorem takeWhile_eq_nil_of_leaves {p : Char → Bool} {r : List Char} (h : Leaves p r) :
    r.takeWhile p = [] := by
  rcases r with _ | ⟨c, r⟩
  · rfl
  · rw [List.takeWhile_cons_of_neg]
    simp [h c rfl]

theorem dropWhile_eq_of_leaves {p : Char → Bool} {r : List Char} (h : Leaves p r) :
    r.dropWhile p = r := by
  rcases r with _ | ⟨c, r⟩
  · rfl
  · rw [List.dropWhile_cons_of_neg]
    simp [h c rfl]

/-- The longest run of a class of characters is the one that the class does not go on after.  Both
halves of the span are determined by this, and no recursion is left in what follows. -/
theorem span_eq_iff {p : Char → Bool} {cs l r : List Char} :
    cs.takeWhile p = l ∧ cs.dropWhile p = r ↔ cs = l ++ r ∧ (∀ c ∈ l, p c) ∧ Leaves p r := by
  constructor
  · rintro ⟨rfl, rfl⟩
    exact ⟨List.takeWhile_append_dropWhile.symm, List.all_eq_true.1 List.all_takeWhile,
      leaves_dropWhile p cs⟩
  · rintro ⟨rfl, hl, hr⟩
    rw [List.takeWhile_append_of_pos hl, List.dropWhile_append_of_pos hl,
      takeWhile_eq_nil_of_leaves hr, dropWhile_eq_of_leaves hr, List.append_nil]
    exact ⟨rfl, rfl⟩

/-- A run that is not empty. -/
theorem splitWhile?_eq_some_iff {p : Char → Bool} {cs l r : List Char} :
    splitWhile? p cs = some (l, r) ↔
      cs = l ++ r ∧ (l ≠ [] ∧ ∀ c ∈ l, p c) ∧ Leaves p r := by
  constructor
  · intro h
    have hne := (splitWhile?_spec h).1
    unfold splitWhile? at h
    split at h
    · cases h
    · obtain ⟨hcs, hl, hr⟩ := span_eq_iff.1 (Prod.mk.inj (Option.some.inj h))
      exact ⟨hcs, ⟨hne, hl⟩, hr⟩
  · rintro ⟨hcs, ⟨hne, hl⟩, hr⟩
    obtain ⟨htake, hdrop⟩ := span_eq_iff.2 ⟨hcs, hl, hr⟩
    unfold splitWhile?
    rw [htake, hdrop]
    split
    · exact absurd rfl hne
    · rfl

theorem splitWhile?_eq_none_iff {p : Char → Bool} {cs : List Char} :
    splitWhile? p cs = none ↔ Leaves p cs := by
  constructor
  · intro h
    unfold splitWhile? at h
    split at h
    · rename_i htake
      have hcs := List.takeWhile_append_dropWhile (p := p) (l := cs)
      rw [htake, List.nil_append] at hcs
      exact hcs ▸ leaves_dropWhile p cs
    · cases h
  · intro h
    unfold splitWhile?
    rw [takeWhile_eq_nil_of_leaves h]

/-! ## Each pattern

One equivalence for each pattern, in the order of the patterns, and then those for all patterns
together.  In the first direction the proofs follow the function that makes the cut, and in the
other direction the shape. -/

/-! ### Words and numbers

Both are runs of a class.  The first character of a word is from a smaller class, and a number is
one run, or two with a point between them. -/

theorem isWordChar_of_isWordStart {c : Char} (h : isWordStart c) : isWordChar c := by
  simp only [isWordStart, isWordChar, Char.isAlphanum, Bool.or_eq_true] at h ⊢
  exact h.imp_left Or.inl

theorem Word.all_isWordChar {l : List Char} (h : Word l) : ∀ c ∈ l, isWordChar c := by
  obtain ⟨c, cs, rfl, hc, hcs⟩ := h
  exact List.forall_mem_cons.2 ⟨isWordChar_of_isWordStart hc, hcs⟩

/-- A word is cut off as long as it goes on. -/
theorem split?_word_iff {cs l r : List Char} :
    word.split? cs = some (l, r) ↔ cs = l ++ r ∧ Word l ∧ Leaves isWordChar r := by
  constructor
  · intro h
    simp only [split?] at h
    split at h
    · rename_i hstart
      obtain ⟨rfl, ⟨hne, hl⟩, hr⟩ := splitWhile?_eq_some_iff.1 h
      obtain ⟨c, l, rfl⟩ := List.exists_cons_of_ne_nil hne
      have hc : isWordStart c := by simpa using hstart
      exact ⟨rfl, ⟨c, l, rfl, hc, fun d hd ↦ hl d (List.mem_cons_of_mem c hd)⟩, hr⟩
    · cases h
  · rintro ⟨rfl, hl, hr⟩
    have hall := hl.all_isWordChar
    obtain ⟨c, l, rfl, hc, -⟩ := hl
    show (if ((c :: l) ++ r).head?.any isWordStart then splitWhile? isWordChar (c :: l ++ r)
      else none) = some (c :: l, r)
    rw [if_pos (by simpa using hc)]
    exact splitWhile?_eq_some_iff.2 ⟨rfl, ⟨List.cons_ne_nil c l, hall⟩, hr⟩

theorem Digits.point_not_mem {l : List Char} (h : Digits l) : '.' ∉ l :=
  fun hmem ↦ absurd (h.2 '.' hmem) (by decide)

theorem leaves_point (r : List Char) : Leaves Char.isDigit ('.' :: r) := by
  rintro c ⟨⟩
  rfl

/-- A number goes on with a point only if a digit comes after that. -/
theorem split?_number_iff {cs l r : List Char} :
    number.split? cs = some (l, r) ↔ cs = l ++ r ∧ Number l ∧ number.Stops l r := by
  show splitNumber? cs = some (l, r) ↔ _
  constructor
  · intro h
    unfold splitNumber? at h
    split at h
    · cases h
    · rename_i whole rest hwhole
      obtain ⟨rfl, hw, hrest⟩ := splitWhile?_eq_some_iff.1 hwhole
      split at h
      -- digits and a point without a digit behind it
      · rename_i hnone
        obtain ⟨rfl, rfl⟩ := Prod.mk.inj (Option.some.inj h)
        refine ⟨rfl, .whole hw, hrest, fun _ ds hds ↦ ?_⟩
        obtain rfl := (List.cons.inj hds).2
        exact splitWhile?_eq_none_iff.1 hnone
      -- digits, a point and digits
      · rename_i fraction rest' hfraction
        obtain ⟨rfl, hf, hr⟩ := splitWhile?_eq_some_iff.1 hfraction
        obtain ⟨rfl, rfl⟩ := Prod.mk.inj (Option.some.inj h)
        refine ⟨by simp, .point hw hf, hr, fun hmem ↦ ?_⟩
        exact absurd (List.mem_append_right whole List.mem_cons_self) hmem
    -- digits without a point behind them
    · rename_i hpoint hwhole
      obtain ⟨rfl, hw, hrest⟩ := splitWhile?_eq_some_iff.1 (hwhole.trans h)
      obtain ⟨rfl, rfl⟩ := Prod.mk.inj (Option.some.inj h)
      exact ⟨rfl, .whole hw, hrest, fun _ ds hds ↦ absurd hds (hpoint ds)⟩
  · rintro ⟨rfl, hl, hr, hpoint⟩
    rcases hl with hw | ⟨hw, hf⟩
    · have hsplit := splitWhile?_eq_some_iff.2 ⟨rfl, hw, hr⟩
      rcases r with _ | ⟨c, r⟩
      · rw [splitNumber?, hsplit]
      · by_cases hc : c = '.'
        · subst hc
          have hnone := splitWhile?_eq_none_iff.2 (hpoint hw.point_not_mem r rfl)
          simp only [splitNumber?, hsplit, hnone]
        · rw [splitNumber?, hsplit]
          split <;> simp_all
    · rename_i whole fraction
      have hwhole : splitWhile? Char.isDigit (whole ++ '.' :: fraction ++ r) =
          some (whole, '.' :: (fraction ++ r)) :=
        splitWhile?_eq_some_iff.2 ⟨by simp, hw, leaves_point _⟩
      have hfraction := splitWhile?_eq_some_iff.2 ⟨rfl, hf, hr⟩
      simp only [splitNumber?, hwhole, hfraction]

/-! ### Strings, comments and marks

A string and a block comment are closed by a fixed text where it occurs for the first time.  In a
string an escape hides a quote, so what counts as an occurrence is told by the escapes before it.
The recursion is over what stands in front of the end. -/

/-- The text between quotes, up to the first quote that no backslash hides. -/
theorem splitQuoted?_eq_some_iff {cs l r : List Char} :
    splitQuoted? cs = some (l, r) ↔
      ∃ inside text, Denotes inside text ∧ l = inside ++ ['"'] ∧ cs = l ++ r := by
  constructor
  · intro h
    have hcs := splitQuoted?_spec h
    suffices hl : ∃ inside text, Denotes inside text ∧ l = inside ++ ['"'] by
      obtain ⟨inside, text, hd, hl⟩ := hl
      exact ⟨inside, text, hd, hl, hcs.symm⟩
    clear hcs
    fun_induction splitQuoted? cs generalizing l r with
    | case1 => cases h
    | case2 cs =>
      obtain ⟨rfl, rfl⟩ := Prod.mk.inj (Option.some.inj h)
      exact ⟨[], [], .nil, rfl⟩
    | case3 => cases h
    | case4 c cs hc ih =>
      obtain ⟨⟨a, b⟩, hab, he⟩ := Option.map_eq_some_iff.1 h
      obtain ⟨inside, text, hd, rfl⟩ := ih hab
      obtain ⟨rfl, rfl⟩ := Prod.mk.inj he
      rcases hu : unescapeChar? c with _ | d
      · exact ⟨'\\' :: c :: inside, _, .unknown hu hc hd, rfl⟩
      · exact ⟨'\\' :: c :: inside, _, .escape hu hd, rfl⟩
    | case5 => cases h
    | case6 c cs hquote _ hc ih =>
      obtain ⟨⟨a, b⟩, hab, he⟩ := Option.map_eq_some_iff.1 h
      obtain ⟨inside, text, hd, rfl⟩ := ih hab
      obtain ⟨rfl, rfl⟩ := Prod.mk.inj he
      obtain ⟨hn, hb⟩ := not_or.1 hc
      exact ⟨c :: inside, _, .plain ⟨hquote, hb, hn⟩ hd, rfl⟩
  · rintro ⟨inside, text, hd, rfl, rfl⟩
    induction hd with
    | nil => rfl
    | @plain c inside _ hc _ ih =>
      obtain ⟨hquote, hb, hn⟩ := hc
      show splitQuoted? (c :: (inside ++ ['"'] ++ r)) = _
      rw [splitQuoted?.eq_4 _ _ hquote (fun _ _ h _ ↦ hb h), ih, if_neg (not_or.2 ⟨hn, hb⟩)]
      rfl
    | @escape c _ inside _ hd _ ih =>
      have hn : c ≠ '\n' := by rintro rfl; cases hd
      show splitQuoted? ('\\' :: c :: (inside ++ ['"'] ++ r)) = _
      rw [splitQuoted?, if_neg hn, ih]
      rfl
    | @unknown c inside _ _ hn _ ih =>
      show splitQuoted? ('\\' :: c :: (inside ++ ['"'] ++ r)) = _
      rw [splitQuoted?, if_neg hn, ih]
      rfl

/-- A string stands for what its escapes are replaced by. -/
theorem Denotes.unescape_eq {inside text : List Char} (h : Denotes inside text) :
    unescape inside = text := by
  induction h with
  | nil => rfl
  | @plain c inside _ hc _ ih =>
    rw [unescape.eq_2 _ _ (fun _ _ h _ ↦ hc.2.1 h), ih]
  | escape hd _ ih => rw [unescape, hd, ih]
  | unknown hc _ _ ih => rw [unescape, hc, ih]

/-- The text of a comment, up to the first place where it is closed. -/
theorem splitComment?_eq_some_iff {cs l r : List Char} :
    splitComment? cs = some (l, r) ↔
      ∃ body, ¬ ['*', '/'] <:+: body ∧ l = body ++ ['*', '/'] ∧ cs = l ++ r := by
  constructor
  · intro h
    fun_induction splitComment? cs generalizing l r with
    | case1 => cases h
    | case2 cs =>
      obtain ⟨rfl, rfl⟩ := Prod.mk.inj (Option.some.inj h)
      exact ⟨[], by decide, rfl, rfl⟩
    | case3 c cs hclose ih =>
      obtain ⟨⟨a, b⟩, hab, he⟩ := Option.map_eq_some_iff.1 h
      obtain ⟨body, hbody, rfl, rfl⟩ := ih hab
      obtain ⟨rfl, rfl⟩ := Prod.mk.inj he
      refine ⟨c :: body, fun hinfix ↦ ?_, rfl, rfl⟩
      rcases List.infix_cons_iff.1 hinfix with ⟨rest, hrest⟩ | hinfix
      · obtain ⟨rfl, rfl⟩ := List.cons.inj hrest
        exact hclose _ rfl rfl
      · exact hbody hinfix
  · rintro ⟨body, hbody, rfl, rfl⟩
    induction body with
    | nil => rfl
    | cons c body ih =>
      -- the comment is not closed at `c`: the body does not, and not together with what closes it
      have hclose : ∀ rest, c = '*' → body ++ ['*', '/'] ++ r = '/' :: rest → False := by
        rintro rest rfl hrest
        rcases body with _ | ⟨d, body⟩
        · cases hrest
        · obtain rfl := (List.cons.inj hrest).1
          exact hbody ⟨[], body, rfl⟩
      have hrest := ih fun h ↦ hbody (h.trans (List.suffix_cons c body).isInfix)
      show splitComment? (c :: (body ++ ['*', '/'] ++ r)) = _
      rw [splitComment?.eq_3 _ _ hclose, hrest]
      rfl

theorem split?_quoted_iff {cs l r : List Char} :
    quoted.split? cs = some (l, r) ↔ cs = l ++ r ∧ quoted.Shape l := by
  constructor
  · intro h
    refine ⟨(split?_spec h).2.symm, ?_⟩
    simp only [split?] at h
    split at h
    · obtain ⟨⟨a, b⟩, hab, he⟩ := Option.map_eq_some_iff.1 h
      obtain ⟨inside, text, hd, rfl, -⟩ := splitQuoted?_eq_some_iff.1 hab
      exact ⟨inside, text, hd, (Prod.mk.inj he).1.symm⟩
    · cases h
  · rintro ⟨rfl, inside, text, hd, rfl⟩
    have h := splitQuoted?_eq_some_iff.2 ⟨inside, text, hd, rfl, (rfl : _ ++ r = _ ++ r)⟩
    simp only [split?, List.cons_append, h, Option.map_some]

theorem split?_lineComment_iff {cs l r : List Char} :
    lineComment.split? cs = some (l, r) ↔
      cs = l ++ r ∧ lineComment.Shape l ∧ lineComment.Stops l r := by
  constructor
  · intro h
    refine ⟨(split?_spec h).2.symm, ?_⟩
    simp only [split?] at h
    split at h
    · rename_i cs
      obtain ⟨rfl, rfl⟩ := Prod.mk.inj (Option.some.inj h)
      refine ⟨⟨_, fun hn ↦ ?_, rfl⟩, leaves_dropWhile _ cs⟩
      simpa using List.all_eq_true.1 List.all_takeWhile '\n' hn
    · cases h
  · rintro ⟨rfl, ⟨body, hbody, rfl⟩, hr⟩
    have hall : ∀ c ∈ body, decide (c ≠ '\n') = true :=
      fun c hc ↦ decide_eq_true fun hn ↦ hbody (hn ▸ hc)
    obtain ⟨htake, hdrop⟩ := span_eq_iff.2 ⟨(rfl : body ++ r = _), hall, hr⟩
    simp only [split?, List.cons_append, htake, hdrop]

theorem split?_blockComment_iff {cs l r : List Char} :
    blockComment.split? cs = some (l, r) ↔ cs = l ++ r ∧ blockComment.Shape l := by
  constructor
  · intro h
    refine ⟨(split?_spec h).2.symm, ?_⟩
    simp only [split?] at h
    split at h
    · obtain ⟨⟨a, b⟩, hab, he⟩ := Option.map_eq_some_iff.1 h
      obtain ⟨body, hbody, rfl, -⟩ := splitComment?_eq_some_iff.1 hab
      exact ⟨body, hbody, (Prod.mk.inj he).1.symm⟩
    · cases h
  · rintro ⟨rfl, body, hbody, rfl⟩
    have h := splitComment?_eq_some_iff.2 ⟨body, hbody, rfl, (rfl : _ ++ r = _ ++ r)⟩
    simp only [split?, List.cons_append, h, Option.map_some]

theorem split?_mark_iff {kind : Kind} {cs l r : List Char} :
    (mark kind).split? cs = some (l, r) ↔ cs = l ++ r ∧ (mark kind).Shape l := by
  constructor
  · intro h
    refine ⟨(split?_spec h).2.symm, ?_⟩
    simp only [split?] at h
    split at h
    · cases h
    · rename_i text htext
      exact ⟨text, htext, (splitText?_spec h).1⟩
  · rintro ⟨rfl, text, htext, rfl⟩
    simp only [split?, htext, splitText?]
    rw [if_pos (List.isPrefixOf_iff_prefix.2 (List.prefix_append _ _)), List.drop_left]

/-! ### All patterns

The equivalences in one statement.  A piece of the shape at the start of a text need not be what is
cut off, as a longer one may be; but then something is cut off (`isSome_split?_of_shape`). -/

/-- A piece is cut off exactly if it has the shape of the pattern and the text after it does not
make it longer. -/
theorem split?_eq_some_iff {p : Pattern} {cs l r : List Char} :
    p.split? cs = some (l, r) ↔ cs = l ++ r ∧ p.Shape l ∧ p.Stops l r := by
  cases p with
  | word => exact split?_word_iff
  | number => exact split?_number_iff
  | blanks => exact splitWhile?_eq_some_iff
  | quoted => exact split?_quoted_iff.trans (by simp [Stops])
  | lineComment => exact split?_lineComment_iff
  | blockComment => exact split?_blockComment_iff.trans (by simp [Stops])
  | mark kind => exact split?_mark_iff.trans (by simp [Stops])

theorem isSome_splitWhile? {p : Char → Bool} {c : Char} (hc : p c) (cs : List Char) :
    (splitWhile? p (c :: cs)).isSome := by
  rw [Option.isSome_iff_ne_none, Ne, splitWhile?_eq_none_iff]
  intro hleaves
  simp [hleaves c rfl] at hc

theorem isSome_splitNumber? {c : Char} (hc : c.isDigit) (cs : List Char) :
    (splitNumber? (c :: cs)).isSome := by
  obtain ⟨⟨whole, rest⟩, hwhole⟩ := Option.isSome_iff_exists.1 (isSome_splitWhile? hc cs)
  rw [splitNumber?, hwhole]
  split
  · contradiction
  · split <;> rfl
  · rfl

/-- A number starts with a digit. -/
theorem Number.exists_cons {l : List Char} (h : Number l) :
    ∃ c cs, l = c :: cs ∧ c.isDigit := by
  rcases h with ⟨hne, hall⟩ | ⟨⟨hne, hall⟩, -⟩
  all_goals
    obtain ⟨c, cs, rfl⟩ := List.exists_cons_of_ne_nil hne
    exact ⟨c, _, rfl, hall c List.mem_cons_self⟩

/-- A text that starts with a piece of the shape has a piece cut off. -/
theorem isSome_split?_of_shape {p : Pattern} {l : List Char} (h : p.Shape l) (r : List Char) :
    (p.split? (l ++ r)).isSome := by
  -- where the shape alone decides the cut, the piece itself is cut off; a run may be longer
  have hexact (hstops : p.Stops l r) : (p.split? (l ++ r)).isSome := by
    rw [split?_eq_some_iff.2 ⟨rfl, h, hstops⟩, Option.isSome_some]
  cases p with
  | word =>
    obtain ⟨c, cs, rfl, hc, -⟩ := h
    simp only [split?, List.cons_append, List.head?_cons, Option.any_some, hc, if_true]
    exact isSome_splitWhile? (isWordChar_of_isWordStart hc) _
  | number =>
    obtain ⟨c, cs, rfl, hc⟩ := Number.exists_cons h
    exact isSome_splitNumber? hc _
  | blanks =>
    obtain ⟨hne, hall⟩ := h
    obtain ⟨c, cs, rfl⟩ := List.exists_cons_of_ne_nil hne
    exact isSome_splitWhile? (hall c List.mem_cons_self) _
  | quoted => exact hexact trivial
  | lineComment =>
    obtain ⟨body, -, rfl⟩ := h
    rfl
  | blockComment => exact hexact trivial
  | mark kind => exact hexact trivial

/-- Nothing is cut off exactly if no piece at the start of the text has the shape. -/
theorem split?_eq_none_iff {p : Pattern} {cs : List Char} :
    p.split? cs = none ↔ ∀ l, l <+: cs → ¬ p.Shape l := by
  constructor
  · rintro hnone l ⟨r, rfl⟩ hl
    have hsome := isSome_split?_of_shape hl r
    rw [hnone] at hsome
    cases hsome
  · intro h
    rcases hsplit : p.split? cs with _ | ⟨l, r⟩
    · rfl
    · obtain ⟨rfl, hl, -⟩ := split?_eq_some_iff.1 hsplit
      exact absurd hl (h l (List.prefix_append l r))

/-! ## The first pattern that fits

The table is tried in its order, so a piece of a pattern is cut off where those before it in the
table have none. -/

theorem match?_eq_some_iff {p : Pattern} {cs : List Char} {m : Match} :
    p.match? cs = some m ↔ p.split? cs = some (m.lexeme, m.rest) ∧ m.pattern = p := by
  refine ⟨match?_spec, ?_⟩
  rintro ⟨h, rfl⟩
  rw [match?, h, Option.map_some]

theorem match?_eq_none_iff {p : Pattern} {cs : List Char} :
    p.match? cs = none ↔ p.split? cs = none :=
  Option.map_eq_none_iff

/-- No pattern fits exactly if no piece at the start of the text has the shape of one. -/
theorem first?_eq_none_iff {cs : List Char} :
    first? cs = none ↔ ∀ p ∈ table, ∀ l, l <+: cs → ¬ p.Shape l := by
  rw [first?, List.findSome?_eq_none_iff]
  exact forall₂_congr fun p _ ↦ match?_eq_none_iff.trans split?_eq_none_iff

/-- The first pattern that fits: those before it in the table have no piece. -/
theorem first?_eq_some_iff {cs : List Char} {m : Match} :
    first? cs = some m ↔
      (∃ before rest, table = before ++ m.pattern :: rest ∧
        ∀ p ∈ before, ∀ l, l <+: cs → ¬ p.Shape l) ∧
      cs = m.lexeme ++ m.rest ∧ m.pattern.Shape m.lexeme ∧ m.pattern.Stops m.lexeme m.rest := by
  rw [first?, List.findSome?_eq_some_iff, ← split?_eq_some_iff]
  constructor
  · rintro ⟨before, p, rest, htable, hp, hbefore⟩
    obtain ⟨hsplit, rfl⟩ := match?_spec hp
    refine ⟨⟨before, rest, htable, fun q hq ↦ ?_⟩, hsplit⟩
    exact split?_eq_none_iff.1 (match?_eq_none_iff.1 (hbefore q hq))
  · rintro ⟨⟨before, rest, htable, hbefore⟩, hsplit⟩
    refine ⟨before, m.pattern, rest, htable, match?_eq_some_iff.2 ⟨hsplit, rfl⟩, fun q hq ↦ ?_⟩
    exact match?_eq_none_iff.2 (split?_eq_none_iff.2 (hbefore q hq))

/-- The pattern of the first piece, and the piece, stay the same if the text ends earlier, as long
as it does not end inside the piece.  The patterns before it do not start to fit, since a piece of
theirs would be at the start of the longer text as well. -/
theorem first?_append {p : Pattern} {l r x : List Char}
    (h : first? (l ++ (r ++ x)) = some ⟨p, l, r ++ x⟩) : first? (l ++ r) = some ⟨p, l, r⟩ := by
  obtain ⟨⟨before, rest, htable, hbefore⟩, -, hshape, hstops⟩ := first?_eq_some_iff.1 h
  refine first?_eq_some_iff.2 ⟨⟨before, rest, htable, fun q hq k hk ↦ ?_⟩, rfl, hshape,
    hstops.of_append⟩
  refine hbefore q hq k (hk.trans ?_)
  rw [← List.append_assoc]
  exact List.prefix_append _ _

/-- Induction on a text by its pieces.  This is the recursion of a scan: at each step the text is
over, no pattern fits, or the first piece is cut off and the rest is shorter. -/
theorem pieces_induction {motive : List Char → Prop} (nil : motive [])
    (stuck : ∀ c r, first? (c :: r) = none → motive (c :: r))
    (piece : ∀ p l r, first? (l ++ r) = some ⟨p, l, r⟩ → motive r → motive (l ++ r))
    (cs : List Char) : motive cs := by
  induction hn : cs.length using Nat.strong_induction_on generalizing cs with
  | _ n ih =>
    subst hn
    rcases cs with _ | ⟨c, r⟩
    · exact nil
    · rcases hm : first? (c :: r) with _ | m
      · exact stuck c r hm
      · have hrest := ih _ (length_rest_lt hm) m.rest rfl
        have hcs := (first?_spec hm).2
        rw [← hcs] at hm ⊢
        exact piece m.pattern m.lexeme m.rest hm hrest

/-! ## Spelling a token

A lexeme is a text with the token that it spells.  How a string is written between its quotes is a
parameter, because there are two answers: a scan reads every escape, also unknown ones (`Denotes`),
while someone who writes a string down needs the known ones only. -/

/-- `Lexeme Quotes l kind value` says that `l` spells the token with this kind and text, where
`Quotes inside text` says how a string is written between its quotes. -/
inductive Lexeme (Quotes : List Char → List Char → Prop) : List Char → Kind → String → Prop
  /-- A mark or a reserved word. -/
  | fixed {kind : Kind} {text : String} (h : kind.spelling? = some text) :
      Lexeme Quotes text.toList kind text
  | identifier {l : List Char} (h : Word l) (hfree : Kind.reserved? (String.ofList l) = none) :
      Lexeme Quotes l .identifier (String.ofList l)
  | number {l : List Char} (h : Number l) : Lexeme Quotes l .number (String.ofList l)
  | string {inside text : List Char} (h : Quotes inside text) :
      Lexeme Quotes ('"' :: (inside ++ ['"'])) .string (String.ofList text)

theorem Lexeme.kind_ne_endOfText {Quotes : List Char → List Char → Prop} {l : List Char}
    {kind : Kind} {value : String} (h : Lexeme Quotes l kind value) : kind ≠ .endOfText := by
  rintro rfl
  cases h with
  | fixed hspelling => cases hspelling

theorem Lexeme.mono {Quotes Quotes' : List Char → List Char → Prop}
    (hq : ∀ inside text, Quotes inside text → Quotes' inside text) {l : List Char} {kind : Kind}
    {value : String} (h : Lexeme Quotes l kind value) : Lexeme Quotes' l kind value := by
  cases h with
  | fixed h => exact .fixed h
  | identifier h hfree => exact .identifier h hfree
  | number h => exact .number h
  | string h => exact .string (hq _ _ h)

theorem token?_quoted {inside text : List Char} (h : Denotes inside text) :
    quoted.token? ('"' :: (inside ++ ['"'])) = some (.string, String.ofList text) := by
  rw [token?, List.drop_one, List.tail_cons, List.dropLast_concat, h.unescape_eq]

/-- The token of a piece has the piece as its lexeme. -/
theorem Lexeme.of_token? {p : Pattern} {l : List Char} {kind : Kind} {value : String}
    (hsome : p.token? l = some (kind, value)) (hshape : p.Shape l) :
    Lexeme Denotes l kind value := by
  cases p with
  | word =>
    obtain ⟨rfl, rfl⟩ := Prod.mk.inj (Option.some.inj hsome)
    rcases hr : Kind.reserved? (String.ofList l) with _ | kind
    · exact .identifier hshape hr
    · have hspelling : kind.spelling? = some (String.ofList l) := by
        simpa using List.find?_some hr
      have h : Lexeme Denotes _ _ _ := .fixed hspelling
      rwa [String.toList_ofList] at h
  | number =>
    obtain ⟨rfl, rfl⟩ := Prod.mk.inj (Option.some.inj hsome)
    exact .number hshape
  | quoted =>
    obtain ⟨inside, text, hd, rfl⟩ := hshape
    rw [token?_quoted hd] at hsome
    obtain ⟨rfl, rfl⟩ := Prod.mk.inj (Option.some.inj hsome)
    exact .string hd
  | mark kind =>
    obtain ⟨text, htext, rfl⟩ := hshape
    obtain ⟨rfl, rfl⟩ := Prod.mk.inj (Option.some.inj hsome)
    rw [String.ofList_toList]
    exact .fixed htext
  | blanks => cases hsome
  | lineComment => cases hsome
  | blockComment => cases hsome

end Pattern
end Typewright
