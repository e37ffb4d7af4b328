import Typewright.Proofs.Lexeme
import Typewright.Token.Scan

/-!
# Scanning undoes spelling

A list of tokens can be written down in many ways.  A `Layout` of a list is a text with a spelling
of every token, in which a `Separator` stands before the first token, between any two and behind the
last one: a blank, and then blanks and comments in any order.  Strings are written with escapes
(`Escapes`).

The main result is `Token.scan_layout`: whatever the layout, the scan gives the list back.  No two
neighbours run together, and none is cut in two, because the patterns that are tried before the
right one do not fit where a lexeme starts (`Pattern.opens`).

## Why a blank between any two tokens

Many tokens could be written next to each other, but not all: `a` and `b`, `1` and `2`, `=` and
`==`, or `/` and a comment.  A layout with exceptions would say in its definition what the scanner
does, and the theorem would be about the exceptions.  Behind a blank there is nothing to go wrong.
The blank comes first in a separator, before any comment, so that a slash does not become part of
the comment behind it.

What a scan does on texts without blanks is the subject of the modules about tilings and longest
matches.
-/

set_option autoImplicit false

namespace Typewright

open Pattern

/-! ## Layouts

A layout is given by relations and not by a function that prints, since a token has many spellings:
escapes may be used or not, and any comment may stand in a separator. -/

/-- The character that stands behind a backslash for `c`. -/
def escapeLetter? (c : Char) : Option Char :=
  if c = '\\' then some '\\'
  else if c = '"' then some '"'
  else if c = '\n' then some 'n'
  else if c = '\t' then some 't'
  else if c = '\r' then some 'r'
  else if c = '\x00' then some '0'
  else none

/-- `Escapes inside text` says that `inside` is `text` with escapes.  A backslash, a quote and a
line break are always escaped; a tab, a carriage return and a zero may be. -/
inductive Escapes : List Char → List Char → Prop
  | nil : Escapes [] []
  | copied {c : Char} {inside text : List Char} (hc : c ≠ '"' ∧ c ≠ '\\' ∧ c ≠ '\n')
      (h : Escapes inside text) : Escapes (c :: inside) (c :: text)
  | escaped {c d : Char} {inside text : List Char} (hd : escapeLetter? c = some d)
      (h : Escapes inside text) : Escapes ('\\' :: d :: inside) (c :: text)

/-- Blanks and comments in any order; a comment to the end of the line has the line break with
it. -/
inductive Filler : List Char → Prop
  | nil : Filler []
  | blank {c : Char} {cs : List Char} (hc : Text.isBlank c) (h : Filler cs) : Filler (c :: cs)
  | line {l cs : List Char} (hl : lineComment.Shape l) (h : Filler cs) : Filler (l ++ '\n' :: cs)
  | block {l cs : List Char} (hl : blockComment.Shape l) (h : Filler cs) : Filler (l ++ cs)

/-- A blank, and then blanks and comments. -/
def Separator (s : List Char) : Prop := ∃ c cs, s = c :: cs ∧ Text.isBlank c ∧ Filler cs

/-- `Layout items text` says that `text` spells the tokens with the kinds and the texts `items`. -/
inductive Layout : List (Kind × String) → List Char → Prop
  | last {s : List Char} (hs : Separator s) : Layout [] s
  | token {s l text : List Char} {kind : Kind} {value : String} {items : List (Kind × String)}
      (hs : Separator s) (hl : Lexeme Escapes l kind value) (h : Layout items text) :
      Layout ((kind, value) :: items) (s ++ (l ++ text))

theorem Layout.exists_cons {items : List (Kind × String)} {text : List Char}
    (h : Layout items text) : ∃ c cs, text = c :: cs ∧ Text.isBlank c := by
  cases h with
  | last hs =>
    obtain ⟨c, cs, rfl, hc, -⟩ := hs
    exact ⟨c, cs, rfl, hc⟩
  | token hs hl h =>
    obtain ⟨c, cs, rfl, hc, -⟩ := hs
    exact ⟨c, _, List.cons_append, hc⟩

/-! ## Escapes

What is written with escapes is read back.  The escapes that are written are among those that are
known to the scan, so the case of an unknown one does not come up. -/

theorem unescapeChar?_of_escapeLetter? {c d : Char} (h : escapeLetter? c = some d) :
    unescapeChar? d = some c := by
  unfold escapeLetter? at h
  split_ifs at h with hc hc hc hc hc hc
  all_goals
    subst hc
    obtain rfl := Option.some.inj h
    rfl

theorem Escapes.denotes {inside text : List Char} (h : Escapes inside text) :
    Denotes inside text := by
  induction h with
  | nil => exact .nil
  | copied hc _ ih => exact .plain hc ih
  | escaped hd _ ih => exact .escape (unescapeChar?_of_escapeLetter? hd) ih

/-! ## The right pattern

That the scan comes to the pattern of a lexeme needs an argument for each pattern before it in the
table.  There are many pairs, and they are treated together: `opens` is a test on the first
characters that every piece of the pattern passes, and a pattern that fails it is not tried with
success. -/

namespace Pattern

/-! ### Classes of characters

Letters, digits and blanks are different characters.  The blanks are a table of ranges that goes far
beyond ASCII, so the code points are compared and not the characters one by one. -/

theorem toNat_of_isWordStart {c : Char} (h : isWordStart c) : 65 ≤ c.toNat ∧ c.toNat ≤ 122 := by
  change (decide (65 ≤ c.toNat ∧ c.toNat ≤ 90) ||
    (decide (97 ≤ c.toNat) && decide (c.toNat ≤ 122)) || c == '_') at h
  simp only [Bool.or_eq_true, Bool.and_eq_true, decide_eq_true_eq, beq_iff_eq] at h
  rcases h with (⟨hl, hu⟩ | ⟨hl, hu⟩) | rfl
  · exact ⟨hl, Nat.le_trans hu (by decide)⟩
  · exact ⟨Nat.le_trans (by decide) hl, hu⟩
  · decide

theorem toNat_of_isDigit {c : Char} (h : c.isDigit) : 48 ≤ c.toNat ∧ c.toNat ≤ 57 := by
  change decide (48 ≤ c.toNat) && decide (c.toNat ≤ 57) at h
  simpa only [Bool.and_eq_true, decide_eq_true_eq] using h

theorem toNat_of_isBlank {c : Char} (h : Text.isBlank c) : c.toNat ≤ 32 ∨ 133 ≤ c.toNat := by
  simp only [Text.isBlank, Text.blankRanges, List.any_cons, List.any_nil, Bool.or_false,
    Bool.or_eq_true, decide_eq_true_eq] at h
  omega

theorem isWordStart_of_isDigit {c : Char} (h : c.isDigit) : isWordStart c = false := by
  refine Bool.eq_false_iff.2 fun hstart ↦ ?_
  have hd := toNat_of_isDigit h
  have hs := toNat_of_isWordStart hstart
  omega

theorem isWordStart_of_isBlank {c : Char} (h : Text.isBlank c) : isWordStart c = false := by
  refine Bool.eq_false_iff.2 fun hstart ↦ ?_
  have hb := toNat_of_isBlank h
  have hs := toNat_of_isWordStart hstart
  omega

theorem isDigit_of_isBlank {c : Char} (h : Text.isBlank c) : c.isDigit = false := by
  refine Bool.eq_false_iff.2 fun hdigit ↦ ?_
  have hb := toNat_of_isBlank h
  have hd := toNat_of_isDigit hdigit
  omega

theorem isWordChar_of_isBlank {c : Char} (h : Text.isBlank c) : isWordChar c = false := by
  have hstart := isWordStart_of_isBlank h
  simp only [isWordStart, Bool.or_eq_false_iff] at hstart
  simp only [isWordChar, Char.isAlphanum, hstart, isDigit_of_isBlank h, Bool.or_false]

/-! ### What a pattern looks at first

The classes exclude each other wherever they are tried.  A mark can be the beginning of something
else, so for marks the order of the table counts: `masks` says that a pattern would fit at a mark,
and no pattern does at a mark behind it. -/

/-- The first characters of the text allow for a piece of this pattern. -/
def opens : Pattern → List Char → Bool
  | word, cs => cs.head?.any isWordStart
  | number, cs => cs.head?.any Char.isDigit
  | blanks, cs => cs.head?.any Text.isBlank
  | quoted, cs => ['"'].isPrefixOf cs
  | lineComment, cs => ['/', '/'].isPrefixOf cs
  | blockComment, cs => ['/', '*'].isPrefixOf cs
  | mark kind, cs => kind.spelling?.any (·.toList.isPrefixOf cs)

/-- A piece of the pattern at the start of a text opens it. -/
theorem opens_of_shape {p : Pattern} {l cs : List Char} (h : p.Shape l) (hl : l <+: cs) :
    p.opens cs := by
  obtain ⟨r, rfl⟩ := hl
  cases p with
  | word =>
    obtain ⟨c, l, rfl, hc, -⟩ := h
    simpa [opens] using hc
  | number =>
    obtain ⟨c, l, rfl, hc⟩ := Number.exists_cons h
    simpa [opens] using hc
  | blanks =>
    obtain ⟨hne, hall⟩ := h
    obtain ⟨c, l, rfl⟩ := List.exists_cons_of_ne_nil hne
    simpa [opens] using hall c List.mem_cons_self
  | quoted =>
    obtain ⟨inside, text, -, rfl⟩ := h
    simp [opens]
  | lineComment =>
    obtain ⟨body, -, rfl⟩ := h
    simp [opens]
  | blockComment =>
    obtain ⟨body, -, rfl⟩ := h
    simp [opens]
  | mark kind =>
    obtain ⟨text, htext, rfl⟩ := h
    simp [opens, htext]

/-- A piece is cut off by its pattern if no pattern before it in the table fits. -/
theorem first?_of_opens (before rest : List Pattern) {p : Pattern} {l r : List Char}
    (htable : table = before ++ p :: rest) (hbefore : before.any (·.opens (l ++ r)) = false)
    (hshape : p.Shape l) (hstops : p.Stops l r) : first? (l ++ r) = some ⟨p, l, r⟩ := by
  refine first?_eq_some_iff.2 ⟨⟨before, rest, htable, fun q hq k hk hqk ↦ ?_⟩, rfl, hshape, hstops⟩
  exact List.any_eq_false.1 hbefore q hq (opens_of_shape hqk hk)

/-- The patterns that are no marks. -/
def classes : List Pattern := [word, number, blanks, quoted, lineComment, blockComment]

/-- No two of the classes fit at the same place. -/
theorem pairwise_classes_opens :
    classes.Pairwise fun p q ↦ ∀ cs, q.opens cs → p.opens cs = false := by
  have hclass {k m : Char → Bool} (hkm : ∀ {c}, m c → k c = false) :
      ∀ cs : List Char, cs.head?.any m → cs.head?.any k = false := by
    rintro (_ | ⟨c, cs⟩) hm
    · rfl
    · exact hkm hm
  simp only [classes, List.pairwise_cons, List.forall_mem_cons, List.not_mem_nil, false_imp_iff,
    implies_true, List.Pairwise.nil, and_true]
  refine ⟨⟨hclass isWordStart_of_isDigit, hclass isWordStart_of_isBlank, ?_, ?_, ?_⟩,
    ⟨hclass isDigit_of_isBlank, ?_, ?_, ?_⟩, ⟨?_, ?_, ?_⟩, ⟨?_, ?_⟩, ?_⟩
  -- the others start with fixed characters, at which the earlier ones do not fit
  all_goals
    intro cs h
    obtain ⟨r, rfl⟩ := List.isPrefixOf_iff_prefix.1 h
    rfl

/-- A piece of a class is cut off as such. -/
theorem first?_of_class {p : Pattern} (hp : p ∈ classes) {l r : List Char} (hshape : p.Shape l)
    (hstops : p.Stops l r) : first? (l ++ r) = some ⟨p, l, r⟩ := by
  obtain ⟨before, rest, hclasses⟩ := List.append_of_mem hp
  have htable : table = before ++ p :: (rest ++ table.drop classes.length) := by
    rw [← List.cons_append, ← List.append_assoc, ← hclasses]
    rfl
  have hpairs := pairwise_classes_opens
  rw [hclasses, List.pairwise_append] at hpairs
  refine first?_of_opens before _ htable (List.any_eq_false.2 fun q hq ↦ ?_) hshape hstops
  rw [hpairs.2.2 q hq p List.mem_cons_self _ (opens_of_shape hshape (List.prefix_append l r))]
  exact Bool.false_ne_true

/-- The pattern `p` fits where the mark `q` starts. -/
def masks (p : Pattern) : Pattern → Bool
  | mark kind => kind.spelling?.any (p.opens ·.toList)
  | _ => false

/-- No pattern fits where a mark starts that comes later in the table. -/
theorem pairwise_table_masks : table.Pairwise fun p q ↦ p.masks q = false := by
  decide +kernel

theorem masks_eq_false {before rest : List Pattern} {p q : Pattern}
    (htable : table = before ++ q :: rest) (hp : p ∈ before) : p.masks q = false := by
  have hpairs := pairwise_table_masks
  rw [htable, List.pairwise_append] at hpairs
  exact hpairs.2.2 p hp q List.mem_cons_self

/-! ### A blank behind a lexeme

A blank does not help a pattern to fit (`opens_of_opens_append`), so that what was checked for the
mark alone holds for the mark and what comes after it.  For words and numbers the blank ends the
run. -/

theorem any_isBlank_spelling {kind : Kind} {text : String} (h : kind.spelling? = some text) :
    text.toList.any Text.isBlank = false := by
  cases kind <;> simp only [Kind.spelling?, reduceCtorEq, Option.some.injEq] at h <;>
    subst h <;> decide

theorem prefix_of_not_mem {l t r : List Char} {c : Char} (hc : c ∉ l) (h : l <+: t ++ c :: r) :
    l <+: t := by
  rcases List.prefix_or_prefix_of_prefix h (List.prefix_append t (c :: r)) with hl | ⟨u, rfl⟩
  · exact hl
  · rw [List.prefix_append_right_inj] at h
    rcases u with _ | ⟨d, u⟩
    · rw [List.append_nil]
    · obtain ⟨rfl, -⟩ := List.cons_prefix_cons.1 h
      exact absurd (List.mem_append_right t List.mem_cons_self) hc

/-- A blank is not what makes a pattern fit. -/
theorem opens_of_opens_append {p : Pattern} {t r : List Char} {c : Char} (hne : t ≠ [])
    (hc : Text.isBlank c) (h : p.opens (t ++ c :: r)) : p.opens t := by
  -- a fixed text without blanks ends before the blank
  have hfixed {l : List Char} (hl : l.any Text.isBlank = false)
      (hpre : l.isPrefixOf (t ++ c :: r)) : l.isPrefixOf t := by
    rw [List.isPrefixOf_iff_prefix] at hpre ⊢
    exact prefix_of_not_mem (fun hmem ↦ List.any_eq_false.1 hl c hmem hc) hpre
  obtain ⟨d, t, rfl⟩ := List.exists_cons_of_ne_nil hne
  cases p with
  | word => exact h
  | number => exact h
  | blanks => exact h
  | quoted => exact hfixed rfl h
  | lineComment => exact hfixed rfl h
  | blockComment => exact hfixed rfl h
  | mark kind =>
    rcases htext : kind.spelling? with _ | text
    · rw [opens, htext] at h
      cases h
    · rw [opens, htext, Option.any_some] at h ⊢
      exact hfixed (any_isBlank_spelling htext) h

/-- A mark with a blank behind it is cut off as this mark. -/
theorem first?_mark {kind : Kind} {text : String} (htext : kind.spelling? = some text)
    (hmem : mark kind ∈ table) {c : Char} (hc : Text.isBlank c) (r : List Char) :
    first? (text.toList ++ c :: r) = some ⟨mark kind, text.toList, c :: r⟩ := by
  obtain ⟨before, rest, htable⟩ := List.append_of_mem hmem
  refine first?_of_opens before rest htable (List.any_eq_false.2 fun q hq hopens ↦ ?_)
    ⟨text, htext, rfl⟩ trivial
  have hmasks := masks_eq_false htable hq
  rw [masks, htext, Option.any_some,
    opens_of_opens_append (Kind.toList_ne_nil_of_spelling? htext) hc hopens] at hmasks
  cases hmasks

theorem first?_word {l : List Char} (hl : Word l) {c : Char} (hc : Text.isBlank c)
    (r : List Char) : first? (l ++ c :: r) = some ⟨word, l, c :: r⟩ := by
  refine first?_of_class (by decide) hl ?_
  rintro d ⟨⟩
  exact isWordChar_of_isBlank hc

theorem first?_number {l : List Char} (hl : Number l) {c : Char} (hc : Text.isBlank c)
    (r : List Char) : first? (l ++ c :: r) = some ⟨number, l, c :: r⟩ := by
  refine first?_of_class (by decide) hl ⟨?_, ?_⟩
  · rintro d ⟨⟩
    exact isDigit_of_isBlank hc
  · rintro - ds hds
    obtain rfl := (List.cons.inj hds).1
    cases hc

theorem first?_quoted {inside text : List Char} (h : Denotes inside text) (r : List Char) :
    first? ('"' :: (inside ++ ['"']) ++ r) = some ⟨quoted, '"' :: (inside ++ ['"']), r⟩ :=
  first?_of_class (by decide) ⟨inside, text, h, rfl⟩ trivial

theorem first?_blanks {l r : List Char} (hl : blanks.Shape l) (hr : Leaves Text.isBlank r) :
    first? (l ++ r) = some ⟨blanks, l, r⟩ :=
  first?_of_class (by decide) hl hr

theorem first?_lineComment {l : List Char} (hl : lineComment.Shape l) (r : List Char) :
    first? (l ++ '\n' :: r) = some ⟨lineComment, l, '\n' :: r⟩ := by
  refine first?_of_class (by decide) hl ?_
  rintro d ⟨⟩
  rfl

theorem first?_blockComment {l : List Char} (hl : blockComment.Shape l) (r : List Char) :
    first? (l ++ r) = some ⟨blockComment, l, r⟩ :=
  first?_of_class (by decide) hl trivial

/-- The words are words, and each is reserved for its own kind. -/
theorem split?_word_of_mem_words : ∀ kind ∈ Kind.words, ∀ text ∈ kind.spelling?,
    word.split? text.toList = some (text.toList, []) ∧ Kind.reserved? text = some kind := by
  decide +kernel

theorem mark_mem_table_or_mem_words {kind : Kind} {text : String}
    (h : kind.spelling? = some text) : mark kind ∈ table ∨ kind ∈ Kind.words := by
  cases kind <;> first | decide | cases h

/-- A lexeme with a blank behind it is cut off as a whole, and stands for its token. -/
theorem exists_first?_of_lexeme {l : List Char} {kind : Kind} {value : String}
    (h : Lexeme Denotes l kind value) {c : Char} (hc : Text.isBlank c) (r : List Char) :
    ∃ p, first? (l ++ c :: r) = some ⟨p, l, c :: r⟩ ∧ p.token? l = some (kind, value) := by
  cases h with
  | fixed htext =>
    rcases mark_mem_table_or_mem_words htext with hmark | hword
    · refine ⟨mark kind, first?_mark htext hmark hc r, ?_⟩
      rw [token?, String.ofList_toList]
    · obtain ⟨hsplit, hreserved⟩ := split?_word_of_mem_words kind hword value htext
      refine ⟨word, first?_word (split?_word_iff.1 hsplit).2.1 hc r, ?_⟩
      rw [token?, String.ofList_toList, hreserved, Option.getD_some]
  | identifier hword hfree =>
    refine ⟨word, first?_word hword hc r, ?_⟩
    rw [token?, hfree, Option.getD_none]
  | number hnumber => exact ⟨number, first?_number hnumber hc r, rfl⟩
  | @string inside text hdenotes =>
    exact ⟨quoted, first?_quoted hdenotes (c :: r), token?_quoted hdenotes⟩

end Pattern

namespace Token

/-! ## Scanning a layout

The induction is on the layout.  Separators are passed piece by piece; since blanks are cut off in
one piece, as long as possible, the lemma for one blank has to compare the piece with and without
its first character (`scanFrom_blank`). -/

/-- A piece that stands for no token is left out. -/
theorem scanFrom_of_token?_eq_none {p : Position} {q : Pattern} {l r : List Char}
    (hfirst : first? (l ++ r) = some ⟨q, l, r⟩) (hnone : q.token? l = none) :
    scanFrom p (l ++ r) = scanFrom (p.after l) r := by
  rw [scanFrom_of_first?_eq_some hfirst, ofMatch?, hnone]
  exact congrFun Except.map_id _

theorem scanFrom_blank {c : Char} (hc : Text.isBlank c) (p : Position) (cs : List Char) :
    scanFrom p (c :: cs) = scanFrom (p.step c) cs := by
  obtain ⟨l, r, rfl, hl, hr⟩ :
      ∃ l r, cs = l ++ r ∧ (∀ d ∈ l, Text.isBlank d) ∧ Leaves Text.isBlank r :=
    ⟨_, _, span_eq_iff.1 ⟨rfl, rfl⟩⟩
  -- the blanks behind `c` go with it, and if there are any, they go together without it too
  have hrun : blanks.Shape (c :: l) := ⟨List.cons_ne_nil c l, List.forall_mem_cons.2 ⟨hc, hl⟩⟩
  rw [← List.cons_append, scanFrom_of_token?_eq_none (first?_blanks hrun hr) rfl,
    Position.after_cons]
  rcases l with _ | ⟨d, l⟩
  · rfl
  · have hrun' : blanks.Shape (d :: l) := ⟨List.cons_ne_nil d l, hl⟩
    rw [scanFrom_of_token?_eq_none (first?_blanks hrun' hr) rfl]

/-- Blanks and comments only move the place. -/
theorem scanFrom_filler {s : List Char} (h : Filler s) (p : Position) (r : List Char) :
    scanFrom p (s ++ r) = scanFrom (p.after s) r := by
  induction h generalizing p with
  | nil => rfl
  | blank hc _ ih => rw [List.cons_append, scanFrom_blank hc, ih, Position.after_cons]
  | line hl _ ih =>
    rw [List.append_assoc, List.cons_append,
      scanFrom_of_token?_eq_none (first?_lineComment hl _) rfl, scanFrom_blank rfl, ih,
      Position.after_append, Position.after_cons]
  | block hl _ ih =>
    rw [List.append_assoc, scanFrom_of_token?_eq_none (first?_blockComment hl _) rfl, ih,
      Position.after_append]

theorem scanFrom_separator {s : List Char} (h : Separator s) (p : Position) (r : List Char) :
    scanFrom p (s ++ r) = scanFrom (p.after s) r := by
  obtain ⟨c, cs, rfl, hc, hcs⟩ := h
  exact scanFrom_filler (.blank hc hcs) p r

/-- A lexeme with a blank behind it gives its token. -/
theorem scanFrom_lexeme {l : List Char} {kind : Kind} {value : String}
    (h : Lexeme Denotes l kind value) {c : Char} (hc : Text.isBlank c) (p : Position)
    (r : List Char) :
    scanFrom p (l ++ c :: r) =
      (scanFrom (p.after l) (c :: r)).map (⟨kind, value, ⟨p, p.after l⟩⟩ :: ·) := by
  obtain ⟨q, hfirst, htoken⟩ := exists_first?_of_lexeme h hc r
  rw [scanFrom_of_first?_eq_some hfirst, ofMatch?, htoken]
  rfl

/-- A layout is scanned from any place. -/
theorem exists_scanFrom_of_layout {items : List (Kind × String)} {text : List Char}
    (h : Layout items text) (p : Position) :
    ∃ ts, scanFrom p text = .ok ts ∧
      ts.map (fun t ↦ (t.kind, t.value)) = items ++ [(.endOfText, "EOF")] := by
  induction h generalizing p with
  | @last s hs =>
    refine ⟨[endAt (p.after s)], ?_, rfl⟩
    have hscan := scanFrom_separator hs p []
    rwa [List.append_nil, scanFrom_nil] at hscan
  | @token s l text kind value items hs hl h ih =>
    obtain ⟨ts, hts, hmap⟩ := ih ((p.after s).after l)
    obtain ⟨c, cs, rfl, hc⟩ := h.exists_cons
    refine ⟨⟨kind, value, p.after s, (p.after s).after l⟩ :: ts, ?_, by simp [hmap]⟩
    rw [scanFrom_separator hs, scanFrom_lexeme (hl.mono fun _ _ ↦ Escapes.denotes) hc, hts]
    rfl

/-- **Scanning undoes spelling.**  Whatever the layout, the scan comes to the end, and the kinds
and the texts of its tokens are those that were spelt, with the end of the text behind them. -/
theorem scan_layout {items : List (Kind × String)} {text : List Char} (h : Layout items text) :
    ∃ ts, scan (String.ofList text) = .ok ts ∧
      ts.map (fun t ↦ (t.kind, t.value)) = items ++ [(.endOfText, "EOF")] := by
  rw [scan, String.toList_ofList]
  exact exists_scanFrom_of_layout h .origin

/-- A string that is written with escapes, a slash next to comments, and a number. -/
theorem scan_layout_quotient :
    Layout [(.string, "\"\n"), (.slash, "/"), (.number, "1.5")]
        "\t\"\\\"\\n\" /*/ \"*// //*\n1.5\t".toList ∧
      ∃ ts, scan (String.ofList "\t\"\\\"\\n\" /*/ \"*// //*\n1.5\t".toList) = .ok ts ∧
        ts.map (fun t ↦ (t.kind, t.value)) =
          [(.string, "\"\n"), (.slash, "/"), (.number, "1.5")] ++ [(.endOfText, "EOF")] := by
  have hblank : Separator "\t".toList := ⟨'\t', [], rfl, rfl, .nil⟩
  have hblock : Separator " /*/ \"*/".toList :=
    ⟨' ', "/*/ \"*/".toList ++ [], rfl, rfl, .block ⟨['/', ' ', '"'], by decide, rfl⟩ .nil⟩
  have hline : Separator " //*\n".toList :=
    ⟨' ', "//*".toList ++ ['\n'], rfl, rfl, .line ⟨['*'], by decide, rfl⟩ .nil⟩
  have hescapes : Escapes ['\\', '"', '\\', 'n'] ['"', '\n'] :=
    .escaped rfl (.escaped rfl .nil)
  have hstring : Lexeme Escapes "\"\\\"\\n\"".toList .string "\"\n" := .string hescapes
  have hslash : Lexeme Escapes "/".toList .slash "/" := .fixed rfl
  have hnumber : Lexeme Escapes "1.5".toList .number "1.5" :=
    .number (.point (l := ['1']) (m := ['5']) (by decide) (by decide))
  have h := Layout.token hblank hstring (.token hblock hslash (.token hline hnumber (.last hblank)))
  exact ⟨h, scan_layout h⟩

end Token
end Typewright
