import Mathlib.Data.List.Basic
import Mathlib.Data.Prod.Basic

/-!
# Regular expressions with preferences

A regular expression can fit the start of a text in more than one way.  A search that backtracks
tries them in an order: the left side of an alternative before the right side, one more round of a
greedy repetition before the end of it, the end of a lazy one before one more round.  `Regex.cuts`
lists in this order all the ways to cut a piece off, and `Regex.find?`  is the first of them, which
is the match that such a search comes back with.

A repetition unfolds by one round (`cuts_many`).  What follows it is tried after each round of a
greedy one from the last to the first (`find?_greedy_seq`), and from the first to the last if it is
lazy (`find?_lazy_seq`).

## Why lists of cuts

The usual meaning of a regular expression is a set of texts.  It does not say which of several
matches is found, and the patterns of the scanner depend on this: a comment ends at the first `*/`,
and with a greedy repetition it would end at the last one.  A list keeps the order.  It is also
finite, so that the first element can be computed, and looking only at its head is what makes the
search lazy.

Rounds that read nothing are left out.  Without this a repetition of something that fits the empty
text would have no end.  The rounds are bounded by the length of the text, so that `cuts` is a
structural recursion; `rounds_eq_rounds` says that the bound is not to be seen.
-/

set_option autoImplicit false

namespace Typewright

/-- A regular expression over classes of characters. -/
inductive Regex where
  /-- The empty text. -/
  | empty
  /-- One character of the class. -/
  | one (p : Char → Bool)
  /-- One after the other. -/
  | seq (e f : Regex)
  /-- One or the other, and the left one first. -/
  | alt (e f : Regex)
  /-- Any number of rounds, as many as possible if it is greedy and as few as possible if not. -/
  | many (greedy : Bool) (e : Regex)

namespace Regex

/-- The text `l` itself. -/
def text : List Char → Regex
  | [] => empty
  | c :: l => seq (one (· = c)) (text l)

/-- One round or more, as many as possible. -/
def plus (e : Regex) : Regex := seq e (many true e)

/-- One round if possible. -/
def optional (e : Regex) : Regex := alt e empty

/-! ## The order of the cuts

A cut is a pair of the piece and the rest of the text.  `andThen` goes through the cuts of the first
part in their order and, for each of them, through those of the second part.  This is backtracking:
if the second part has no cut for a rest, the next cut of the first part is taken. -/

/-- Each of the cuts, with the piece that `f` cuts off after it put to it. -/
def andThen (cuts : List (List Char × List Char)) (f : List Char → List (List Char × List Char)) :
    List (List Char × List Char) :=
  cuts.flatMap fun x ↦ (f x.2).map (Prod.map (x.1 ++ ·) id)

/-- The cuts of one more round and those without it, in the order of the repetition. -/
def arrange (greedy : Bool) (more stop : List (List Char × List Char)) :
    List (List Char × List Char) :=
  if greedy then more ++ stop else stop ++ more

/-- The cuts that leave a shorter text. -/
def shorter (cs : List Char) (cuts : List (List Char × List Char)) : List (List Char × List Char) :=
  cuts.filter fun x ↦ x.2.length < cs.length

/-- The cuts of at most `n` rounds.  A round that reads nothing is not made. -/
def rounds (greedy : Bool) (step : List Char → List (List Char × List Char)) :
    Nat → List Char → List (List Char × List Char)
  | 0, cs => [([], cs)]
  | n + 1, cs =>
    arrange greedy (andThen (shorter cs (step cs)) (rounds greedy step n)) [([], cs)]

/-- All ways to cut a piece off the text, with what is left of it, in the order in which they are
tried.  There are no more rounds of a repetition than characters. -/
def cuts : Regex → List Char → List (List Char × List Char)
  | empty, cs => [([], cs)]
  | one _, [] => []
  | one p, c :: cs => if p c then [([c], cs)] else []
  | seq e f, cs => andThen (e.cuts cs) f.cuts
  | alt e f, cs => e.cuts cs ++ f.cuts cs
  | many greedy e, cs => rounds greedy e.cuts cs.length cs

/-- The way to cut a piece off that is tried first. -/
def find? (e : Regex) (cs : List Char) : Option (List Char × List Char) := (e.cuts cs).head?

/-! ## Unfolding a repetition

The bound on the rounds is removed here, and what comes after works with the equation `cuts_many`,
in which it does not occur. -/

theorem arrange_true (more stop : List (List Char × List Char)) :
    arrange true more stop = more ++ stop := rfl

theorem arrange_false (more stop : List (List Char × List Char)) :
    arrange false more stop = stop ++ more := rfl

theorem length_lt_of_mem_shorter {cs : List Char} {xs : List (List Char × List Char)}
    {x : List Char × List Char} (hx : x ∈ shorter cs xs) : x.2.length < cs.length :=
  of_decide_eq_true (List.mem_filter.1 hx).2

section Rounds

variable {greedy : Bool} {step : List Char → List (List Char × List Char)} {cs : List Char}

theorem shorter_nil (xs : List (List Char × List Char)) : shorter [] xs = [] :=
  List.filter_eq_nil_iff.2 fun x _ ↦ by simp

theorem rounds_nil (n : Nat) : rounds greedy step n [] = [([], [])] := by
  cases n with
  | zero => rfl
  | succ n => cases greedy <;> rw [rounds, shorter_nil] <;> rfl

theorem andThen_congr {xs : List (List Char × List Char)}
    {f g : List Char → List (List Char × List Char)} (h : ∀ x ∈ xs, f x.2 = g x.2) :
    andThen xs f = andThen xs g :=
  List.flatMap_congr fun x hx ↦ by rw [h x hx]

/-- More rounds than characters change nothing. -/
theorem rounds_eq_rounds {n m : Nat} (hn : cs.length ≤ n) (hm : cs.length ≤ m) :
    rounds greedy step n cs = rounds greedy step m cs := by
  induction n generalizing m cs with
  | zero =>
    obtain rfl := List.length_eq_zero_iff.1 (Nat.le_zero.1 hn)
    rw [rounds_nil, rounds_nil]
  | succ n ih =>
    rcases m with _ | m
    · obtain rfl := List.length_eq_zero_iff.1 (Nat.le_zero.1 hm)
      rw [rounds_nil, rounds_nil]
    · have hmore : andThen (shorter cs (step cs)) (rounds greedy step n) =
          andThen (shorter cs (step cs)) (rounds greedy step m) := by
        refine andThen_congr fun x hx ↦ ?_
        have hlt := length_lt_of_mem_shorter hx
        exact ih (by omega) (by omega)
      rw [rounds, rounds, hmore]

end Rounds

variable {greedy : Bool} {p : Char → Bool} {e f : Regex} {c : Char} {cs : List Char}

/-- **A repetition makes one more round, or none.** -/
theorem cuts_many : (many greedy e).cuts cs =
    arrange greedy (andThen (shorter cs (e.cuts cs)) (many greedy e).cuts) [([], cs)] := by
  have hround : (many greedy e).cuts cs = rounds greedy e.cuts (cs.length + 1) cs :=
    rounds_eq_rounds (Nat.le_refl _) (Nat.le_succ _)
  rw [hround, rounds]
  congr 1
  refine andThen_congr fun x hx ↦ ?_
  exact rounds_eq_rounds (Nat.le_of_lt (length_lt_of_mem_shorter hx)) (Nat.le_refl _)

/-! ## The first cut

What is found, by the form of the expression.  A sequence is the one form where the cuts of a part
count beyond the first. -/

/-- The first cut of the second part behind a cut of the first part that has one. -/
theorem head?_andThen (xs : List (List Char × List Char))
    (f : List Char → List (List Char × List Char)) :
    (andThen xs f).head? = xs.findSome? fun x ↦ (f x.2).head?.map (Prod.map (x.1 ++ ·) id) := by
  rw [andThen, List.head?_flatMap]
  congr 1
  funext x
  rw [List.head?_map]

theorem find?_seq : (seq e f).find? cs =
    (e.cuts cs).findSome? fun x ↦ (f.find? x.2).map (Prod.map (x.1 ++ ·) id) :=
  head?_andThen _ _

theorem find?_alt : (alt e f).find? cs = (e.find? cs).or (f.find? cs) := List.head?_append

theorem find?_optional : (optional e).find? cs = (e.find? cs).or (some ([], cs)) := find?_alt

theorem find?_one_seq_cons : (seq (one p) f).find? (c :: cs) =
    if p c then (f.find? cs).map (Prod.map (c :: ·) id) else none := by
  rw [find?_seq, cuts]
  split <;> simp

/-- If `f` fits any text, the first cut of `e` is gone on with. -/
theorem find?_seq_of_isSome (hf : ∀ r, (f.find? r).isSome) : (seq e f).find? cs =
    (e.find? cs).bind fun x ↦ (f.find? x.2).map (Prod.map (x.1 ++ ·) id) := by
  rw [find?_seq, find?]
  cases e.cuts cs with
  | nil => rfl
  | cons x xs =>
    obtain ⟨y, hy⟩ := Option.isSome_iff_exists.1 (hf x.2)
    simp [hy]

/-! ## What follows a repetition

The equations by which a repetition with something behind it is compared to a loop.  If a round can
be made in at most one way, which is so for all patterns of the scanner, there is one equation for
each outcome of the round. -/

theorem andThen_append (xs ys : List (List Char × List Char))
    (f : List Char → List (List Char × List Char)) :
    andThen (xs ++ ys) f = andThen xs f ++ andThen ys f :=
  List.flatMap_append

theorem andThen_stop (f : List Char → List (List Char × List Char)) :
    andThen [([], cs)] f = f cs := by
  rw [andThen, List.flatMap_singleton]
  exact List.map_id _

theorem andThen_andThen (xs : List (List Char × List Char))
    (f g : List Char → List (List Char × List Char)) :
    andThen (andThen xs f) g = andThen xs fun r ↦ andThen (f r) g := by
  simp only [andThen, List.flatMap_assoc, List.flatMap_map, List.map_flatMap, List.map_map,
    Function.comp_def, Prod.map, List.append_assoc, id]
  rfl

/-- After one more round there is the repetition again, with what follows it. -/
theorem cuts_many_seq : (seq (many greedy e) f).cuts cs =
    arrange greedy (andThen (shorter cs (e.cuts cs)) (seq (many greedy e) f).cuts) (f.cuts cs) := by
  have hassoc (more : List (List Char × List Char)) :
      andThen (andThen more (many greedy e).cuts) f.cuts =
        andThen more (seq (many greedy e) f).cuts :=
    andThen_andThen more _ _
  rw [cuts, cuts_many]
  cases greedy with
  | true => rw [arrange_true, andThen_append, hassoc, andThen_stop, arrange_true]
  | false => rw [arrange_false, andThen_append, hassoc, andThen_stop, arrange_false]

/-- After a greedy repetition, what follows is tried here only if it fits after no further round. -/
theorem find?_greedy_seq : (seq (many true e) f).find? cs =
    ((shorter cs (e.cuts cs)).findSome? fun x ↦
      ((seq (many true e) f).find? x.2).map (Prod.map (x.1 ++ ·) id)).or (f.find? cs) := by
  rw [find?, cuts_many_seq, arrange_true, List.head?_append, head?_andThen]
  rfl

theorem find?_greedy_seq_of_nil (he : e.cuts cs = []) :
    (seq (many true e) f).find? cs = f.find? cs := by
  rw [find?_greedy_seq, he, shorter, List.filter_nil, List.findSome?_nil, Option.none_or]

theorem find?_greedy_seq_of_singleton {l r : List Char} (he : e.cuts cs = [(l, r)])
    (hr : r.length < cs.length) : (seq (many true e) f).find? cs =
      (((seq (many true e) f).find? r).map (Prod.map (l ++ ·) id)).or (f.find? cs) := by
  have hshorter : shorter cs [(l, r)] = [(l, r)] := List.filter_eq_self.2 (by simpa using hr)
  rw [find?_greedy_seq, he, hshorter, List.findSome?_singleton]

/-- After a lazy repetition, one more round is made only if what follows does not fit here. -/
theorem find?_lazy_seq : (seq (many false e) f).find? cs =
    (f.find? cs).or ((shorter cs (e.cuts cs)).findSome? fun x ↦
      ((seq (many false e) f).find? x.2).map (Prod.map (x.1 ++ ·) id)) := by
  rw [find?, cuts_many_seq, arrange_false, List.head?_append, head?_andThen]
  rfl

/-! ## Texts and runs

The building blocks: a fixed text has one cut or none, and a greedy run of a class is `takeWhile`.
-/

theorem shorter_cuts_one_cons :
    shorter (c :: cs) ((one p).cuts (c :: cs)) = if p c then [([c], cs)] else [] := by
  rw [cuts]
  split
  · exact List.filter_eq_self.2 fun x hx ↦ by simp [List.mem_singleton.1 hx]
  · rfl

/-- A greedy run of a class takes all it can. -/
theorem find?_run (p : Char → Bool) (cs : List Char) :
    (many true (one p)).find? cs = some (cs.takeWhile p, cs.dropWhile p) := by
  induction cs with
  | nil => rfl
  | cons c cs ih =>
    rw [find?, cuts_many, arrange_true, shorter_cuts_one_cons, List.head?_append, head?_andThen]
    by_cases hc : p c
    · rw [if_pos hc, List.findSome?_singleton, ← find?, ih, List.takeWhile_cons_of_pos hc,
        List.dropWhile_cons_of_pos hc]
      rfl
    · rw [if_neg hc, List.takeWhile_cons_of_neg hc, List.dropWhile_cons_of_neg hc]
      rfl

/-- A text fits in one way, where it is at the start. -/
theorem cuts_text (l cs : List Char) :
    (text l).cuts cs = if l <+: cs then [(l, cs.drop l.length)] else [] := by
  induction l generalizing cs with
  | nil => rw [if_pos List.nil_prefix]; rfl
  | cons d l ih =>
    cases cs with
    | nil => rfl
    | cons c cs =>
      rw [text, cuts, cuts]
      by_cases hd : c = d
      · subst hd
        rw [if_pos (decide_eq_true rfl), andThen, List.flatMap_singleton, ih,
          apply_ite (List.map _)]
        simp only [List.cons_prefix_cons, true_and]
        rfl
      · rw [if_neg (by simpa using hd), if_neg fun h ↦ hd (List.cons_prefix_cons.1 h).1.symm]
        rfl

theorem find?_text (l cs : List Char) :
    (text l).find? cs = if l <+: cs then some (l, cs.drop l.length) else none := by
  rw [find?, cuts_text, apply_ite List.head?]
  rfl

theorem find?_text_seq_append (l cs : List Char) :
    (seq (text l) f).find? (l ++ cs) = (f.find? cs).map (Prod.map (l ++ ·) id) := by
  rw [find?_seq, cuts_text, if_pos (List.prefix_append l cs), List.findSome?_singleton,
    List.drop_left]

theorem find?_text_seq_eq_none {l : List Char} (h : ¬ l <+: cs) :
    (seq (text l) f).find? cs = none := by
  rw [find?_seq, cuts_text, if_neg h, List.findSome?_nil]

end Regex
end Typewright
