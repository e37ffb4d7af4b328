import Mathlib.Data.List.MinMax
import Typewright.Proofs.Layout
import Typewright.Proofs.Regex

/-!
# The longest piece

The table is tried from its start, and the first pattern that fits cuts its piece off.  Other
scanners try all patterns and take the longest piece.  This module says that both come to the same.

Each pattern is a regular expression (`Pattern.regex`), and the piece that it cuts off is the one
that a search for the expression finds first (`find?_regex`).  A class of texts fits only where no
other class and no mark does, comments apart, which start with a mark.  Therefore:

* `length_lt_of_first?`: the piece of the first pattern that fits is longer than the pieces of all
  others that fit.
* `first?_of_two_le`: a piece of two characters or more is never cut in two.
* `longestFit_eq_firstFit`: if the longest piece is taken, the order of the patterns does not
  matter.

`table_longest_match` puts this together.

## What has to be checked in the table

The order of the table enters the argument by one fact, `pairwise_table_masks`: no pattern fits at a
mark that comes later.  It is decided by evaluation, so a table with `=` before `==` would be found
out there and nowhere else.  The rest is about patterns in general.  A pattern that fits where a
shorter mark starts, but not at the mark alone, must have looked at more than the mark, and so its
piece is longer (`length_lt_of_masks_eq_false`).
-/

set_option autoImplicit false

namespace Typewright
namespace Pattern

/-! ## The patterns as regular expressions

The functions that cut pieces off are loops over characters.  They are compared to the search one
pattern after the other.  Only strings and block comments have a repetition with something behind
it, and there the induction follows the loop; the other patterns are fixed texts, or end with a
greedy run, which takes all it can. -/

/-- What may stand between the quotes of a string: a character that means itself, or a backslash and
the character behind it. -/
def insideQuotes : Regex :=
  .alt (.one fun c ↦ c ≠ '"' ∧ c ≠ '\\' ∧ c ≠ '\n') (.seq (.text ['\\']) (.one (· ≠ '\n')))

/-- The regular expression of the pattern.  A mark without a spelling fits nowhere. -/
def regex : Pattern → Regex
  | word => .seq (.one isWordStart) (.many true (.one isWordChar))
  | number =>
    .seq (.plus (.one Char.isDigit)) (.optional (.seq (.text ['.']) (.plus (.one Char.isDigit))))
  | blanks => .plus (.one Text.isBlank)
  | quoted => .seq (.text ['"']) (.seq (.many true insideQuotes) (.text ['"']))
  | lineComment => .seq (.text ['/', '/']) (.many true (.one (· ≠ '\n')))
  | blockComment =>
    .seq (.text ['/', '*']) (.seq (.many false (.one fun _ ↦ true)) (.text ['*', '/']))
  | mark kind =>
    match kind.spelling? with
    | none => .one fun _ ↦ false
    | some text => .text text.toList

/-- A run of a class that starts with a character of a smaller class. -/
theorem find?_start_run {p q : Char → Bool} (hpq : ∀ {c}, p c → q c) (cs : List Char) :
    (Regex.seq (.one p) (.many true (.one q))).find? cs =
      if cs.head?.any p then splitWhile? q cs else none := by
  cases cs with
  | nil => rfl
  | cons c cs =>
    rw [Regex.find?_one_seq_cons, Regex.find?_run, List.head?_cons, Option.any_some]
    split
    case isTrue hc =>
      rw [splitWhile?, List.takeWhile_cons_of_pos (hpq hc), List.dropWhile_cons_of_pos (hpq hc)]
      rfl
    case isFalse => rfl

/-- One character of a class or more. -/
theorem find?_plus_one (p : Char → Bool) (cs : List Char) :
    (Regex.plus (.one p)).find? cs = splitWhile? p cs := by
  rw [Regex.plus, find?_start_run id]
  split
  case isTrue => rfl
  case isFalse h =>
    have hleaves : Leaves p cs := fun c hc ↦ by simpa [Option.mem_def.1 hc] using h
    rw [splitWhile?_eq_none_iff.2 hleaves]

theorem find?_fraction_point (cs : List Char) :
    (Regex.seq (.text ['.']) (.plus (.one Char.isDigit))).find? ('.' :: cs) =
      (splitWhile? Char.isDigit cs).map (Prod.map ('.' :: ·) id) := by
  rw [← find?_plus_one]
  exact Regex.find?_text_seq_append ['.'] cs

/-- The fraction is read if there is one: its digits cannot be given back to the part before the
point. -/
theorem find?_regex_number (cs : List Char) : number.regex.find? cs = number.split? cs := by
  have htotal (r : List Char) : (Regex.find? (.optional (.seq (.text ['.'])
      (.plus (.one Char.isDigit)))) r).isSome := by
    rw [Regex.find?_optional, Option.isSome_or, Option.isSome_some, Bool.or_true]
  rw [regex, Regex.find?_seq_of_isSome htotal, find?_plus_one, split?, splitNumber?]
  rcases splitWhile? Char.isDigit cs with _ | ⟨whole, rest⟩
  · rfl
  · rw [Option.bind_some, Regex.find?_optional]
    rcases rest with _ | ⟨c, rest⟩
    · simp [Regex.find?_text_seq_eq_none]
    · by_cases hc : c = '.'
      · subst hc
        rw [find?_fraction_point]
        rcases hfraction : splitWhile? Char.isDigit rest with _ | ⟨fraction, rest'⟩ <;>
          simp [hfraction]
      · rw [Regex.find?_text_seq_eq_none fun h ↦ hc (List.cons_prefix_cons.1 h).1.symm]
        simp [hc]

/-! ### Strings and comments

Here a search could backtrack, and it does not.  A character between quotes can be read in one way
only, and never as the closing quote, so the first quote that is not hidden is the only end.  In a
comment the repetition is lazy, and what closes it is tried first in each round. -/

theorem cuts_insideQuotes_escape (c : Char) (cs : List Char) :
    insideQuotes.cuts ('\\' :: c :: cs) = if c = '\n' then [] else [(['\\', c], cs)] := by
  simp only [insideQuotes, Regex.cuts, Regex.cuts_text, Regex.andThen]
  by_cases hc : c = '\n' <;> simp [hc, Regex.cuts]

theorem cuts_insideQuotes_plain {c : Char} (hc : c ≠ '\\') (cs : List Char) :
    insideQuotes.cuts (c :: cs) = if c = '"' ∨ c = '\n' then [] else [([c], cs)] := by
  have hprefix : ¬ ['\\'] <+: c :: cs := fun h ↦ hc (List.cons_prefix_cons.1 h).1.symm
  simp only [insideQuotes, Regex.cuts, Regex.cuts_text, Regex.andThen, if_neg hprefix]
  by_cases hquote : c = '"' <;> by_cases hn : c = '\n' <;> simp [hc, hquote, hn]

/-- The repetition between quotes ends at the first quote that no backslash hides.  What it has read
before does not contain another, so that no earlier end is left to try. -/
theorem find?_insideQuotes (cs : List Char) :
    (Regex.seq (.many true insideQuotes) (.text ['"'])).find? cs = splitQuoted? cs := by
  have hnone {c : Char} (hc : c ≠ '"') (cs : List Char) :
      (Regex.text ['"']).find? (c :: cs) = none := by
    rw [Regex.find?_text, if_neg fun h ↦ hc (List.cons_prefix_cons.1 h).1.symm]
  fun_induction splitQuoted? cs with
  | case1 => rfl
  | case2 cs =>
    rw [Regex.find?_greedy_seq_of_nil (cuts_insideQuotes_plain (by decide) cs)]
    rfl
  | case3 cs =>
    rw [Regex.find?_greedy_seq_of_nil (cuts_insideQuotes_escape _ cs), hnone (by decide)]
  -- a backslash and what it hides are one round; the quote behind it is not tried at the backslash
  | case4 c cs hc ih =>
    have hcuts := cuts_insideQuotes_escape c cs
    rw [if_neg hc] at hcuts
    have hlen : cs.length < ('\\' :: c :: cs).length := Nat.lt_succ_of_lt (Nat.lt_succ_self _)
    rw [Regex.find?_greedy_seq_of_singleton hcuts hlen, hnone (by decide), Option.or_none, ih]
    rfl
  | case5 c cs hquote hescape hc =>
    have hcuts : insideQuotes.cuts (c :: cs) = [] := by
      rcases hc with rfl | rfl
      · exact cuts_insideQuotes_plain (by decide) cs
      · -- A backslash that ends the text hides nothing.
        rcases cs with _ | ⟨d, cs⟩
        · rfl
        · exact (hescape d cs rfl rfl).elim
    rw [Regex.find?_greedy_seq_of_nil hcuts, hnone hquote]
  | case6 c cs hquote _ hc ih =>
    obtain ⟨hn, hb⟩ := not_or.1 hc
    have hcuts := cuts_insideQuotes_plain hb cs
    rw [if_neg (not_or.2 ⟨hquote, hn⟩)] at hcuts
    have hlen : cs.length < (c :: cs).length := Nat.lt_succ_self _
    rw [Regex.find?_greedy_seq_of_singleton hcuts hlen, hnone hquote, Option.or_none, ih]
    rfl

/-- The lazy repetition in a comment ends where the comment can be closed for the first time. -/
theorem find?_inside_comment (cs : List Char) :
    (Regex.seq (.many false (.one fun _ ↦ true)) (.text ['*', '/'])).find? cs =
      splitComment? cs := by
  fun_induction splitComment? cs with
  | case1 => rfl
  | case2 cs =>
    rw [Regex.find?_lazy_seq]
    rfl
  | case3 c cs hclose ih =>
    have hnone : (Regex.text ['*', '/']).find? (c :: cs) = none := by
      rw [Regex.find?_text, if_neg]
      rintro ⟨rest, hrest⟩
      obtain ⟨rfl, rfl⟩ := List.cons.inj hrest
      exact hclose rest rfl rfl
    rw [Regex.find?_lazy_seq, Regex.shorter_cuts_one_cons, if_pos rfl, List.findSome?_singleton, ih,
      hnone]
    rfl

theorem split?_eq_none_of_opens {p : Pattern} {cs : List Char} (h : p.opens cs = false) :
    p.split? cs = none :=
  split?_eq_none_iff.2 fun _ hl hshape ↦ Bool.eq_false_iff.1 h (opens_of_shape hshape hl)

/-- A pattern with a fixed opening is decided by what it cuts off behind it. -/
theorem find?_text_seq_eq_split? {p : Pattern} {l cs : List Char} {f : Regex}
    (hopens : p.opens cs = l.isPrefixOf cs)
    (hsplit : ∀ r, (f.find? r).map (Prod.map (l ++ ·) id) = p.split? (l ++ r)) :
    (Regex.seq (.text l) f).find? cs = p.split? cs := by
  by_cases hl : l <+: cs
  · obtain ⟨r, rfl⟩ := hl
    rw [Regex.find?_text_seq_append, hsplit]
  · have hopens' : p.opens cs = false := by
      rwa [hopens, ← Bool.not_eq_true, List.isPrefixOf_iff_prefix]
    rw [Regex.find?_text_seq_eq_none hl, split?_eq_none_of_opens hopens']

/-- **A pattern cuts off what a search for its regular expression finds.** -/
theorem find?_regex (p : Pattern) (cs : List Char) : p.regex.find? cs = p.split? cs := by
  cases p with
  | word => exact find?_start_run isWordChar_of_isWordStart cs
  | number => exact find?_regex_number cs
  | blanks => exact find?_plus_one _ cs
  | quoted =>
    refine find?_text_seq_eq_split? rfl fun r ↦ ?_
    rw [find?_insideQuotes]
    rfl
  | lineComment =>
    refine find?_text_seq_eq_split? rfl fun r ↦ ?_
    rw [Regex.find?_run]
    rfl
  | blockComment =>
    refine find?_text_seq_eq_split? rfl fun r ↦ ?_
    rw [find?_inside_comment]
    rfl
  | mark kind =>
    rw [regex, split?]
    rcases kind.spelling? with _ | text
    · cases cs <;> rfl
    · simp only [Regex.find?_text, splitText?, List.isPrefixOf_iff_prefix]

/-- The piece that the regular expression of the pattern finds, with the pattern. -/
def found? (p : Pattern) (cs : List Char) : Option Match :=
  (p.regex.find? cs).map fun (l, r) ↦ ⟨p, l, r⟩

/-- The pieces that are found are those that are cut off. -/
theorem found?_eq_match? : found? = match? := by
  funext p cs
  rw [found?, find?_regex, match?]

/-! ## The first piece is the longest

A pattern that is no mark fits where no other such pattern does (`pairwise_classes_opens`), so the
question is about marks: those that start like another mark, and the slash of a comment. -/

theorem mem_classes_or_eq_mark (p : Pattern) : p ∈ classes ∨ ∃ kind, p = mark kind := by
  cases p with
  | mark kind => exact .inr ⟨kind, rfl⟩
  | _ => exact .inl (by decide)

/-- If a class of texts fits, no pattern before it does. -/
theorem first?_of_match?_class {p : Pattern} (hp : p ∈ classes) {cs : List Char} {n : Match}
    (hn : p.match? cs = some n) : first? cs = some n := by
  obtain ⟨hsplit, rfl⟩ := match?_eq_some_iff.1 hn
  obtain ⟨rfl, hshape, hstops⟩ := split?_eq_some_iff.1 hsplit
  exact first?_of_class hp hshape hstops

/-- A pattern that does not fit at a mark itself, but where the mark starts, has a longer piece. -/
theorem length_lt_of_masks_eq_false {p : Pattern} {kind : Kind} {text : String}
    (htext : kind.spelling? = some text) (hmasks : p.masks (mark kind) = false) {l cs : List Char}
    (hshape : p.Shape l) (hl : l <+: cs) (ht : text.toList <+: cs) :
    text.toList.length < l.length := by
  rw [masks, htext, Option.any_some] at hmasks
  by_contra hlen
  have hpre := List.prefix_of_prefix_length_le hl ht (Nat.le_of_not_lt hlen)
  exact Bool.eq_false_iff.1 hmasks (opens_of_shape hshape hpre)

/-- The other patterns that fit have shorter pieces. -/
theorem length_lt_of_first? {cs : List Char} {m n : Match} (hm : first? cs = some m) {p : Pattern}
    (hp : p ∈ table) (hne : p ≠ m.pattern) (hn : p.match? cs = some n) :
    n.lexeme.length < m.lexeme.length := by
  rcases mem_classes_or_eq_mark p with hclass | ⟨kind, rfl⟩
  · obtain rfl := Option.some.inj (hm.symm.trans (first?_of_match?_class hclass hn))
    exact absurd (match?_eq_some_iff.1 hn).2.symm hne
  · obtain ⟨hsplit, -⟩ := match?_eq_some_iff.1 hn
    obtain ⟨hcs, ⟨text, htext, hlexeme⟩, -⟩ := split?_eq_some_iff.1 hsplit
    obtain ⟨⟨before, rest, htable, hbefore⟩, hcs', hshape, -⟩ := first?_eq_some_iff.1 hm
    have hpre : text.toList <+: cs := ⟨n.rest, hlexeme ▸ hcs.symm⟩
    -- the mark is not among the patterns that do not fit, so it comes behind the first that does
    have hrest : mark kind ∈ rest := by
      rw [htable, List.mem_append, List.mem_cons] at hp
      rcases hp with hp | hp | hp
      · exact absurd ⟨text, htext, rfl⟩ (hbefore _ hp _ hpre)
      · exact absurd hp hne
      · exact hp
    obtain ⟨between, after, rfl⟩ := List.append_of_mem hrest
    have htable' : table = (before ++ m.pattern :: between) ++ mark kind :: after := by
      rw [htable, List.append_assoc, List.cons_append]
    have hmasks := masks_eq_false htable' (List.mem_append_right before List.mem_cons_self)
    rw [hlexeme]
    exact length_lt_of_masks_eq_false htext hmasks hshape ⟨m.rest, hcs'.symm⟩ hpre

theorem length_spelling_le_two : ∀ kind, mark kind ∈ table → ∀ text ∈ kind.spelling?,
    text.toList.length ≤ 2 := by
  intro kind
  cases kind <;> decide +kernel

/-- No pattern of the table looks at more than two characters to see whether it can fit. -/
theorem opens_of_two_le {p : Pattern} (hp : p ∈ table) {t r : List Char} (ht : 2 ≤ t.length)
    (h : p.opens (t ++ r)) : p.opens t := by
  have hfixed {l : List Char} (hl : l.length ≤ 2) (hpre : l.isPrefixOf (t ++ r)) :
      l.isPrefixOf t := by
    rw [List.isPrefixOf_iff_prefix] at hpre ⊢
    exact List.prefix_of_prefix_length_le hpre (List.prefix_append t r) (hl.trans ht)
  obtain ⟨c, t, rfl⟩ := List.exists_cons_of_length_pos (Nat.lt_of_lt_of_le Nat.two_pos ht)
  cases p with
  | word | number | blanks => exact h
  | quoted => exact hfixed (l := ['"']) (by decide) h
  | lineComment => exact hfixed (l := ['/', '/']) (by decide) h
  | blockComment => exact hfixed (l := ['/', '*']) (by decide) h
  | mark kind =>
    rcases htext : kind.spelling? with _ | text
    · rw [opens, htext] at h
      cases h
    · rw [opens, htext, Option.any_some] at h ⊢
      exact hfixed (length_spelling_le_two kind hp text htext) h

/-- A piece of two characters or more is cut off as it is. -/
theorem first?_of_two_le {p : Pattern} (hp : p ∈ table) {cs : List Char} {n : Match}
    (hn : p.match? cs = some n) (hlen : 2 ≤ n.lexeme.length) : first? cs = some n := by
  rcases mem_classes_or_eq_mark p with hclass | ⟨kind, rfl⟩
  · exact first?_of_match?_class hclass hn
  · obtain ⟨hsplit, hpattern⟩ := match?_eq_some_iff.1 hn
    obtain ⟨rfl, ⟨text, htext, hlexeme⟩, -⟩ := split?_eq_some_iff.1 hsplit
    obtain ⟨before, rest, htable⟩ := List.append_of_mem hp
    have hbefore : before.any (·.opens (n.lexeme ++ n.rest)) = false := by
      refine List.any_eq_false.2 fun q hq hopens ↦ ?_
      have hmem : q ∈ table := htable ▸ List.mem_append_left _ hq
      have hmasks := masks_eq_false htable hq
      rw [masks, htext, Option.any_some, ← hlexeme, opens_of_two_le hmem hlen hopens] at hmasks
      cases hmasks
    have hfirst := first?_of_opens before rest htable hbefore ⟨text, htext, hlexeme⟩ trivial
    rw [hfirst, ← hpattern]

/-! ## Scanning by the longest match

A scan with the choice of the next piece as a parameter.  The structure `Chooser` carries with the
choice that it leaves a shorter text, and so the scan ends whatever is chosen; both ways to choose
are instances. -/

/-- A way to choose the next piece of a text, which leaves a shorter text. -/
@[ext]
structure Chooser where
  next? : List Char → Option Match
  length_rest_lt {cs : List Char} {m : Match} : next? cs = some m → m.rest.length < cs.length

namespace Chooser

/-- The tokens of a text that starts at the place `p`, if its pieces are chosen by `k`. -/
def scanFrom (k : Chooser) (p : Position) : List Char → Except Diagnostic (List Token)
  | [] => .ok [Token.endAt p]
  | c :: cs =>
    match _h : k.next? (c :: cs) with
    | none => .error (.located (.unrecognisedToken (String.singleton c)) p)
    | some m => (k.scanFrom (p.after m.lexeme) m.rest).map ((Token.ofMatch? p m).toList ++ ·)
termination_by cs => cs.length
decreasing_by exact k.length_rest_lt _h

/-- The tokens of a source text, if its pieces are chosen by `k`. -/
def scan (k : Chooser) (source : String) : Except Diagnostic (List Token) :=
  k.scanFrom .origin source.toList

theorem scanFrom_of_next?_eq_none {k : Chooser} {p : Position} {c : Char} {cs : List Char}
    (h : k.next? (c :: cs) = none) :
    k.scanFrom p (c :: cs) = .error (.located (.unrecognisedToken (String.singleton c)) p) := by
  rw [scanFrom]
  split
  case h_1 => rfl
  case h_2 hm => cases h.symm.trans hm

theorem scanFrom_of_next?_eq_some {k : Chooser} {p : Position} {cs : List Char} {m : Match}
    (h : k.next? cs = some m) : k.scanFrom p cs =
      (k.scanFrom (p.after m.lexeme) m.rest).map ((Token.ofMatch? p m).toList ++ ·) := by
  obtain ⟨c, cs, rfl⟩ := List.exists_cons_of_length_pos (Nat.zero_lt_of_lt (k.length_rest_lt h))
  rw [scanFrom]
  split
  case h_1 hnone => cases h.symm.trans hnone
  case h_2 n hn =>
    obtain rfl := Option.some.inj (h.symm.trans hn)
    rfl

end Chooser

/-! ### Two ways to choose

By the order of the patterns, and by the length of the pieces.  The list of patterns is a parameter,
since the second way is to be compared with the first one for all orders. -/

theorem length_rest_lt_of_found? {p : Pattern} {cs : List Char} {m : Match}
    (h : p.found? cs = some m) : m.rest.length < cs.length := by
  rw [found?_eq_match?] at h
  obtain ⟨hne, rfl⟩ := split?_spec (match?_spec h).1
  have hpos := List.length_pos_iff.2 hne
  rw [List.length_append]
  omega

/-- The piece of the first pattern of `t` that fits is chosen. -/
def firstFit (t : List Pattern) : Chooser where
  next? cs := t.findSome? (found? · cs)
  length_rest_lt h := by
    obtain ⟨p, -, hp⟩ := List.exists_of_findSome?_eq_some h
    exact length_rest_lt_of_found? hp

/-- The longest piece of the patterns of `t` that fit is chosen. -/
def longestFit (t : List Pattern) : Chooser where
  next? cs := (t.filterMap (found? · cs)).argmax (·.lexeme.length)
  length_rest_lt h := by
    obtain ⟨p, -, hp⟩ := List.mem_filterMap.1 (List.argmax_mem h)
    exact length_rest_lt_of_found? hp

/-- The first pattern that is found is the first that fits. -/
theorem next?_firstFit (cs : List Char) : (firstFit table).next? cs = first? cs := by
  show table.findSome? (found? · cs) = first? cs
  rw [found?_eq_match?, first?]

/-- The scan chooses the first piece that fits. -/
theorem scanFrom_firstFit (cs : List Char) (p : Position) :
    (firstFit table).scanFrom p cs = Token.scanFrom p cs := by
  induction cs using pieces_induction generalizing p with
  | nil => rw [Chooser.scanFrom, Token.scanFrom_nil]
  | stuck c r h =>
    have hnext := (next?_firstFit (c :: r)).trans h
    rw [Chooser.scanFrom_of_next?_eq_none hnext, Token.scanFrom_of_first?_eq_none h]
  | piece q l r h ih =>
    have hnext := (next?_firstFit (l ++ r)).trans h
    rw [Chooser.scanFrom_of_next?_eq_some hnext, Token.scanFrom_of_first?_eq_some h, ih]

/-- A greatest element that no other comes up to is found wherever it stands. -/
theorem argmax_eq_some_of_lt {f : Match → Nat} {ms : List Match} {m : Match} (hm : m ∈ ms)
    (hlt : ∀ n ∈ ms, n ≠ m → f n < f m) : ms.argmax f = some m := by
  rcases hn : ms.argmax f with _ | n
  · rw [List.argmax_eq_none.1 hn] at hm
    cases hm
  · have hle := List.le_of_mem_argmax hm hn
    by_contra hne
    have hlt' := hlt n (List.argmax_mem hn) fun h ↦ hne (congrArg some h)
    omega

/-- Whatever the order of the patterns, the longest piece is the first one of the table. -/
theorem longestFit_eq_firstFit {t : List Pattern} (ht : t.Perm table) :
    longestFit t = firstFit table := by
  refine Chooser.ext (funext fun cs ↦ ?_)
  rw [next?_firstFit]
  show (t.filterMap (found? · cs)).argmax (·.lexeme.length) = first? cs
  rw [found?_eq_match?]
  rcases hm : first? cs with _ | m
  · rw [List.argmax_eq_none, List.filterMap_eq_nil_iff]
    exact fun p hp ↦ List.findSome?_eq_none_iff.1 hm p (ht.mem_iff.1 hp)
  · obtain ⟨p, hp, hpm⟩ := List.exists_of_findSome?_eq_some hm
    refine argmax_eq_some_of_lt (List.mem_filterMap.2 ⟨p, ht.mem_iff.2 hp, hpm⟩) fun n hn hne ↦ ?_
    obtain ⟨q, hq, hqn⟩ := List.mem_filterMap.1 hn
    refine length_lt_of_first? hm (ht.mem_iff.1 hq) (fun hqm ↦ hne ?_) hqn
    obtain rfl := (match?_spec hpm).2
    exact Option.some.inj (hqn.symm.trans (hqm ▸ hpm))

/-- **Maximal munch.**  The first piece is that of the first regular expression of the table that is
found at the start of the text, and it is longer than those of all others that are found there.  A
piece of two characters or more is cut off whenever its pattern fits, never a part of it.  A scan
that takes the longest piece gives the same tokens, or the same error, for every order of the
table. -/
theorem table_longest_match :
    (∀ cs, first? cs = table.findSome? (found? · cs)) ∧
    (∀ cs m, first? cs = some m → ∀ p ∈ table, p ≠ m.pattern → ∀ n, p.found? cs = some n →
      n.lexeme.length < m.lexeme.length) ∧
    (∀ cs, ∀ p ∈ table, ∀ n, p.found? cs = some n → 2 ≤ n.lexeme.length → first? cs = some n) ∧
    ∀ t : List Pattern, t.Perm table → ∀ source,
      (longestFit t).scan source = Token.scan source := by
  refine ⟨fun cs ↦ (next?_firstFit cs).symm, ?_, ?_, ?_⟩
  · rw [found?_eq_match?]
    exact fun cs m hm p hp hne n hn ↦ length_lt_of_first? hm hp hne hn
  · rw [found?_eq_match?]
    exact fun cs p hp n hn hlen ↦ first?_of_two_le hp hn hlen
  · intro t ht source
    rw [longestFit_eq_firstFit ht]
    exact scanFrom_firstFit source.toList .origin

/-- An assignment sign that opens another mark, a comment that opens like one inside it, and the
table from its end. -/
theorem table_longest_match_overlap :
    first? "==/*/ */".toList = some ⟨mark .equals, ['=', '='], "/*/ */".toList⟩ ∧
      (mark .assignment).found? "==/*/ */".toList =
        some ⟨mark .assignment, ['='], "=/*/ */".toList⟩ ∧
      ['='].length < ['=', '='].length ∧
      blockComment.found? "/*/ */*".toList = some ⟨blockComment, "/*/ */".toList, ['*']⟩ ∧
      first? "/*/ */*".toList = some ⟨blockComment, "/*/ */".toList, ['*']⟩ ∧
      table.reverse.Perm table ∧
      (longestFit table.reverse).scan "a==b//c" = Token.scan "a==b//c" := by
  obtain ⟨-, hlongest, htwo, hscan⟩ := table_longest_match
  have hfirst : first? "==/*/ */".toList = some ⟨mark .equals, ['=', '='], "/*/ */".toList⟩ := rfl
  have hfound : (mark .assignment).found? "==/*/ */".toList =
      some ⟨mark .assignment, ['='], "=/*/ */".toList⟩ := rfl
  have hcomment : blockComment.found? "/*/ */*".toList =
      some ⟨blockComment, "/*/ */".toList, ['*']⟩ := rfl
  exact ⟨hfirst, hfound, hlongest _ _ hfirst _ (by decide) (by decide) _ hfound, hcomment,
    htwo _ _ (by decide) _ hcomment (by decide), table.reverse_perm, hscan _ table.reverse_perm _⟩

end Pattern
end Typewright
