import Typewright.Text.Blank
import Typewright.Token.Kind

/-!
# The lexical table

A `Pattern` describes one shape that a piece of a source text can have at its start.  Six of them
are classes of texts, the others are the marks of the language.  `Pattern.split?` cuts the piece
off, and `Pattern.table` lists all patterns in the order in which they are tried.

A piece is never empty, and the piece and the text after it are the whole text (`split?_spec`).
-/

set_option autoImplicit false

namespace Typewright

/-- A shape of a piece of source text. -/
inductive Pattern where
  /-- Letters, digits and underscores, no digit first. -/
  | word
  /-- Digits, and a point with more digits if there are any after it. -/
  | number
  /-- White space. -/
  | blanks
  /-- A string between double quotes on one line. -/
  | quoted
  /-- Two slashes and the rest of the line. -/
  | lineComment
  /-- The text between a slash with a star and the next star with a slash. -/
  | blockComment
  /-- One of the marks of the language. -/
  | mark (kind : Kind)
deriving DecidableEq, Repr, Inhabited

namespace Pattern

/-! ## Cutting a piece off

For each pattern, how a piece of it is cut off the start of a text. -/

/-- A letter or an underscore. -/
def isWordStart (c : Char) : Bool := c.isAlpha || c == '_'

/-- A letter, a digit or an underscore. -/
def isWordChar (c : Char) : Bool := c.isAlphanum || c == '_'

/-- The part of a quoted string after the opening quote, up to the closing one.  A backslash hides
the character after it; a line break never belongs to a string. -/
def splitQuoted? : List Char → Option (List Char × List Char)
  | [] => none
  | '"' :: cs => some (['"'], cs)
  | '\\' :: c :: cs =>
    if c = '\n' then none else (splitQuoted? cs).map fun (l, r) ↦ ('\\' :: c :: l, r)
  | c :: cs =>
    if c = '\n' ∨ c = '\\' then none else (splitQuoted? cs).map fun (l, r) ↦ (c :: l, r)

/-- The part of a comment after its opening, up to the first star with a slash. -/
def splitComment? : List Char → Option (List Char × List Char)
  | [] => none
  | '*' :: '/' :: cs => some (['*', '/'], cs)
  | c :: cs => (splitComment? cs).map fun (l, r) ↦ (c :: l, r)

/-- Cuts off the longest piece whose characters satisfy `p`, unless it is empty. -/
def splitWhile? (p : Char → Bool) (cs : List Char) : Option (List Char × List Char) :=
  match cs.takeWhile p with
  | [] => none
  | l => some (l, cs.dropWhile p)

/-- Cuts off a number: the digits after a point belong to it if there is one at least. -/
def splitNumber? (cs : List Char) : Option (List Char × List Char) :=
  match splitWhile? Char.isDigit cs with
  | none => none
  | some (whole, '.' :: rest) =>
    match splitWhile? Char.isDigit rest with
    | none => some (whole, '.' :: rest)
    | some (fraction, rest) => some (whole ++ '.' :: fraction, rest)
  | some (whole, rest) => some (whole, rest)

/-- Cuts off the text `l`. -/
def splitText? (l cs : List Char) : Option (List Char × List Char) :=
  if l.isPrefixOf cs then some (l, cs.drop l.length) else none

/-- Cuts off a piece of the shape `p`, if the text starts with one. -/
def split? (p : Pattern) (cs : List Char) : Option (List Char × List Char) :=
  match p with
  | word =>
    if cs.head?.any isWordStart then splitWhile? isWordChar cs else none
  | number => splitNumber? cs
  | blanks => splitWhile? Text.isBlank cs
  | quoted =>
    match cs with
    | '"' :: cs => (splitQuoted? cs).map fun (l, r) ↦ ('"' :: l, r)
    | _ => none
  | lineComment =>
    match cs with
    | '/' :: '/' :: cs => some ('/' :: '/' :: cs.takeWhile (· ≠ '\n'), cs.dropWhile (· ≠ '\n'))
    | _ => none
  | blockComment =>
    match cs with
    | '/' :: '*' :: cs => (splitComment? cs).map fun (l, r) ↦ ('/' :: '*' :: l, r)
    | _ => none
  | mark kind =>
    match kind.spelling? with
    | none => none
    | some text => splitText? text.toList cs

/-! ## The table

The order matters for marks.  A class of texts is recognised by its first characters, and only
comments start with a mark. -/

/-- The patterns in the order in which they are tried: a mark comes after every longer mark that it
opens. -/
def table : List Pattern :=
  [word, number, blanks, quoted, lineComment, blockComment,
    mark .openCurly, mark .closeCurly, mark .openParen, mark .closeParen,
    mark .equals, mark .notEquals, mark .not, mark .assignment,
    mark .lessEquals, mark .less, mark .greaterEquals, mark .greater,
    mark .or, mark .and, mark .pipe, mark .ampersand, mark .caret, mark .tilde,
    mark .semicolon, mark .comma, mark .plus, mark .dash, mark .slash, mark .star, mark .percent]

/-- A pattern with the piece that it cut off and the text after the piece. -/
structure Match where
  pattern : Pattern
  lexeme : List Char
  rest : List Char

/-- The piece that `p` cuts off, with `p`. -/
def match? (p : Pattern) (cs : List Char) : Option Match :=
  (p.split? cs).map fun (l, r) ↦ ⟨p, l, r⟩

/-- The piece that the first fitting pattern of the table cuts off. -/
def first? (cs : List Char) : Option Match := table.findSome? (match? · cs)

/-! ## What a piece stands for

Words are looked up among the reserved ones after they were cut off, so a reserved word that goes on
is an identifier. -/

/-- The character that a backslash and `c` stand for; only six escapes are known. -/
def unescapeChar? (c : Char) : Option Char :=
  if c = 'n' then some '\n'
  else if c = 't' then some '\t'
  else if c = 'r' then some '\r'
  else if c = '\\' then some '\\'
  else if c = '"' then some '"'
  else if c = '0' then some '\x00'
  else none

/-- The text that the inside of a quoted string denotes; an unknown escape stands for itself. -/
def unescape : List Char → List Char
  | '\\' :: c :: cs =>
    match unescapeChar? c with
    | some d => d :: unescape cs
    | none => '\\' :: c :: unescape cs
  | c :: cs => c :: unescape cs
  | [] => []

/-- The kind and the text of the token that a piece of this shape stands for.  White space and
comments stand for none. -/
def token? (p : Pattern) (lexeme : List Char) : Option (Kind × String) :=
  let text := String.ofList lexeme
  match p with
  | word => some ((Kind.reserved? text).getD .identifier, text)
  | number => some (.number, text)
  | quoted => some (.string, String.ofList (unescape (lexeme.drop 1).dropLast))
  | mark kind => some (kind, text)
  | blanks | lineComment | blockComment => none

/-! ## A piece and the text after it

The piece and the rest are the whole text, and the piece is not empty.  The scan ends because of
this. -/

theorem splitQuoted?_spec {cs l r : List Char} (h : splitQuoted? cs = some (l, r)) :
    l ++ r = cs := by
  fun_induction splitQuoted? cs generalizing l r with
  | case1 => simp at h
  | case2 cs => simp at h; simp [← h.1, ← h.2]
  | case3 => simp at h
  | case4 c cs hc ih =>
    obtain ⟨⟨a, b⟩, hab, he⟩ := Option.map_eq_some_iff.mp h
    simp only [Prod.mk.injEq] at he
    simp [← he.1, ← he.2, ih hab]
  | case5 => simp at h
  | case6 c cs _ _ hc ih =>
    obtain ⟨⟨a, b⟩, hab, he⟩ := Option.map_eq_some_iff.mp h
    simp only [Prod.mk.injEq] at he
    simp [← he.1, ← he.2, ih hab]

theorem splitComment?_spec {cs l r : List Char} (h : splitComment? cs = some (l, r)) :
    l ++ r = cs := by
  fun_induction splitComment? cs generalizing l r with
  | case1 => simp at h
  | case2 cs => simp at h; simp [← h.1, ← h.2]
  | case3 c cs _ ih =>
    obtain ⟨⟨a, b⟩, hab, he⟩ := Option.map_eq_some_iff.mp h
    simp only [Prod.mk.injEq] at he
    simp [← he.1, ← he.2, ih hab]

theorem splitWhile?_spec {p : Char → Bool} {cs l r : List Char}
    (h : splitWhile? p cs = some (l, r)) : l ≠ [] ∧ l ++ r = cs := by
  unfold splitWhile? at h
  split at h
  · simp at h
  · rename_i hne
    simp only [Option.some.injEq, Prod.mk.injEq] at h
    rw [← h.1, ← h.2]
    exact ⟨hne, List.takeWhile_append_dropWhile⟩

theorem splitNumber?_spec {cs l r : List Char} (h : splitNumber? cs = some (l, r)) :
    l ≠ [] ∧ l ++ r = cs := by
  unfold splitNumber? at h
  split at h
  · simp at h
  · rename_i whole rest hw
    obtain ⟨hne, happ⟩ := splitWhile?_spec hw
    split at h
    · simp only [Option.some.injEq, Prod.mk.injEq] at h
      rw [← h.1, ← h.2]
      exact ⟨hne, happ⟩
    · rename_i fraction rest' hf
      obtain ⟨_, hf⟩ := splitWhile?_spec hf
      simp only [Option.some.injEq, Prod.mk.injEq] at h
      rw [← h.1, ← h.2, ← happ, ← hf]
      simp
  · rename_i _ hw
    obtain ⟨rfl, rfl⟩ : _ ∧ _ := by simpa using h
    exact splitWhile?_spec hw

theorem splitText?_spec {t cs l r : List Char} (h : splitText? t cs = some (l, r)) :
    l = t ∧ l ++ r = cs := by
  unfold splitText? at h
  split at h
  · rename_i hp
    obtain ⟨rfl, rfl⟩ : _ ∧ _ := by simpa using h
    obtain ⟨r, rfl⟩ := List.isPrefixOf_iff_prefix.mp hp
    simp
  · simp at h

/-- A piece is not empty, and nothing is lost: the piece and the text after it are the text. -/
theorem split?_spec {p : Pattern} {cs l r : List Char} (h : p.split? cs = some (l, r)) :
    l ≠ [] ∧ l ++ r = cs := by
  unfold split? at h
  split at h
  · split at h
    · exact splitWhile?_spec h
    · simp at h
  · exact splitNumber?_spec h
  · exact splitWhile?_spec h
  · split at h
    · obtain ⟨⟨a, b⟩, hab, he⟩ := Option.map_eq_some_iff.mp h
      obtain ⟨rfl, rfl⟩ : _ ∧ _ := by simpa using he
      simp [splitQuoted?_spec hab]
    · simp at h
  · split at h
    · obtain ⟨rfl, rfl⟩ : _ ∧ _ := by simpa using h
      simp
    · simp at h
  · split at h
    · obtain ⟨⟨a, b⟩, hab, he⟩ := Option.map_eq_some_iff.mp h
      obtain ⟨rfl, rfl⟩ : _ ∧ _ := by simpa using he
      simp [splitComment?_spec hab]
    · simp at h
  · split at h
    · simp at h
    · rename_i text hk
      obtain ⟨rfl, happ⟩ := splitText?_spec h
      exact ⟨Kind.toList_ne_nil_of_spelling? hk, happ⟩

theorem match?_spec {p : Pattern} {cs : List Char} {m : Match} (h : p.match? cs = some m) :
    p.split? cs = some (m.lexeme, m.rest) ∧ m.pattern = p := by
  obtain ⟨⟨a, b⟩, hab, rfl⟩ := Option.map_eq_some_iff.mp h
  exact ⟨hab, rfl⟩

theorem first?_spec {cs : List Char} {m : Match} (h : first? cs = some m) :
    m.lexeme ≠ [] ∧ m.lexeme ++ m.rest = cs := by
  obtain ⟨p, _, hp⟩ := List.exists_of_findSome?_eq_some h
  exact split?_spec (match?_spec hp).1

/-- The text after a piece is shorter. -/
theorem length_rest_lt {cs : List Char} {m : Match} (h : first? cs = some m) :
    m.rest.length < cs.length := by
  obtain ⟨hne, happ⟩ := first?_spec h
  have hpos := List.length_pos_iff.mpr hne
  rw [← happ, List.length_append]
  omega

end Pattern
end Typewright
