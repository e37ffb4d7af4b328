import Typewright.Report.Diagnostic
import Typewright.Token.Basic

/-!
# Cursors over tokens

A `Cursor` is a place in a list of tokens that is not empty.  Moving on from the last token stays at
it, so there is always a current token; only the count of moves still grows.

`Parse α` is an action that moves a cursor and gives an `α`, or stops.  An action that stops leaves
the cursor where it was then.
-/

set_option autoImplicit false

namespace Typewright

/-- A place in a list of tokens. -/
structure Cursor where
  current : Token
  /-- The tokens after the current one. -/
  rest : List Token
  /-- How many moves were made. -/
  moves : Nat := 0
deriving DecidableEq, Repr

namespace Cursor

/-- The start of a list of tokens; an empty list has none. -/
def ofTokens? : List Token → Option Cursor
  | [] => none
  | t :: ts => some ⟨t, ts, 0⟩

/-- The next token, or the last one again. -/
def next (c : Cursor) : Cursor :=
  match c.rest with
  | [] => ⟨c.current, [], c.moves + 1⟩
  | t :: ts => ⟨t, ts, c.moves + 1⟩

/-- The kind of the current token. -/
def kind (c : Cursor) : Kind := c.current.kind

/-- The place of the current token. -/
def position (c : Cursor) : Position := c.current.start

/-- The current token is not the end of the text. -/
def hasTokens (c : Cursor) : Bool := c.kind ≠ .endOfText

/-- The current token cannot stand here, because `message`. -/
def unexpected (c : Cursor) (message : String) : Diagnostic :=
  .located (.unexpectedTokenDetailed c.current.value message) c.position

end Cursor

/-- The token cannot stand where it does. -/
def Token.unexpected (t : Token) : Diagnostic := .located (.unexpectedToken t.value) t.start

/-- Why no tree was read. -/
inductive Stop where
  /-- The tokens break a rule of the grammar. -/
  | error (d : Diagnostic)
  /-- There are no tokens at all, not even the end of the text. -/
  | noTokens
  /-- The rules never come to an end on these tokens. -/
  | endless
deriving DecidableEq, Repr, Inhabited

/-- An action that moves a cursor. -/
abbrev Parse := EStateM Stop Cursor

namespace Parse

/-- Stops with a diagnostic. -/
def fail {α : Type} (d : Diagnostic) : Parse α := throw (.error d)

/-- The current token. -/
def current : Parse Token := return (← get).current

/-- The kind of the current token. -/
def kind : Parse Kind := return (← get).kind

/-- The place of the current token. -/
def position : Parse Position := return (← get).position

/-- Moves on and gives the token that was current. -/
def advance : Parse Token := modifyGet fun c ↦ (c.current, c.next)

/-- Stops because the current token cannot stand here. -/
def unexpected {α : Type} (message : String) : Parse α := do fail ((← get).unexpected message)

/-- Moves past a token of kind `k`; at any other token it stops, with `d` if that is given. -/
def expectOr (k : Kind) (d : Option Diagnostic) : Parse Token := do
  let t ← current
  if t.kind = k then advance else fail (d.getD t.unexpected)

/-- Moves past a token of kind `k`. -/
def expect (k : Kind) : Parse Token := expectOr k none

/-- Moves past a token of kind `k`, or stops with `message`. -/
def expectDetailed (k : Kind) (message : String) : Parse Token := do
  expectOr k (some ((← get).unexpected message))

@[simp] theorem current_apply (c : Cursor) : current c = .ok c.current c := rfl

@[simp] theorem kind_apply (c : Cursor) : kind c = .ok c.kind c := rfl

@[simp] theorem position_apply (c : Cursor) : position c = .ok c.position c := rfl

@[simp] theorem advance_apply (c : Cursor) : advance c = .ok c.current c.next := rfl

@[simp] theorem fail_apply {α : Type} (d : Diagnostic) (c : Cursor) :
    (fail d : Parse α) c = .error (.error d) c := rfl

theorem expectOr_apply (k : Kind) (d : Option Diagnostic) (c : Cursor) :
    expectOr k d c =
      if c.kind = k then .ok c.current c.next
      else .error (.error (d.getD c.current.unexpected)) c := by
  by_cases h : c.kind = k
  · have : c.current.kind = k := h
    simp [expectOr, bind, EStateM.bind, h, this]
  · have : ¬ c.current.kind = k := h
    simp [expectOr, bind, EStateM.bind, h, this]

/-- How often a rule may be applied inside itself, and how often it may be repeated: a rule moves on
before it is applied again, so this is enough for the tokens that are left and for a few more moves
at the last one, where the same rule at the same token would never end. -/
def budget (c : Cursor) : Nat := c.rest.length + 64

/-- An action that is given the budget of the cursor it starts from. -/
def budgeted {α : Type} (f : Nat → Parse α) : Parse α := do f (budget (← get))

end Parse
end Typewright
