import Typewright.Tree.Ty

/-!
# Symbols

A symbol is a small number that stands for a text.  A `SymbolTable` hands them out: equal texts get
equal symbols, and a symbol keeps its text whatever is interned later.  The table is kept in both
directions, from texts to symbols and from slots to texts.  The names that the language itself knows
are interned first, so they have the first slots of every table.
-/

set_option autoImplicit false

namespace Typewright

/-- The slot of a text in a symbol table. -/
structure Symbol where
  slot : UInt32
deriving DecidableEq, Repr, Inhabited

namespace Symbol

/-- The symbol of `Int`. -/
def int : Symbol := ⟨0⟩
/-- The symbol of `Float`. -/
def float : Symbol := ⟨1⟩
/-- The symbol of `String`. -/
def string : Symbol := ⟨2⟩
/-- The symbol of `Bool`. -/
def bool : Symbol := ⟨3⟩
/-- The symbol of `Void`. -/
def void : Symbol := ⟨4⟩
/-- The symbol of `main`. -/
def main : Symbol := ⟨5⟩
/-- The symbol of `printf`. -/
def printf : Symbol := ⟨6⟩

/-- The type whose name the symbol stands for. -/
def ty? (s : Symbol) : Option Ty :=
  if s = int then some .int
  else if s = float then some .float
  else if s = string then some .string
  else if s = bool then some .bool
  else if s = void then some .void
  else none

end Symbol

/-- The symbols that were handed out. -/
structure SymbolTable where
  /-- The texts that have a symbol, with their symbols. -/
  symbols : List (String × Symbol)
  /-- The texts by slot. -/
  texts : Array String
deriving DecidableEq, Repr

namespace SymbolTable

/-- The table without symbols. -/
def empty : SymbolTable := ⟨[], #[]⟩

/-- The text of a symbol. -/
def text? (t : SymbolTable) (s : Symbol) : Option String := t.texts[s.slot.toNat]?

/-- The symbol of a text that has one. -/
def symbol? (t : SymbolTable) (text : String) : Option Symbol := t.symbols.lookup text

/-- The symbol of the next slot. -/
def nextSymbol (t : SymbolTable) : Symbol := ⟨UInt32.ofNat t.texts.size⟩

/-- The symbol of a text, in a new slot if it has none yet. -/
def intern (t : SymbolTable) (text : String) : Symbol × SymbolTable :=
  match t.symbol? text with
  | some s => (s, t)
  | none => (t.nextSymbol, ⟨(text, t.nextSymbol) :: t.symbols, t.texts.push text⟩)

/-- The symbols of the texts, interned in order. -/
def internAll (t : SymbolTable) : List String → List Symbol × SymbolTable
  | [] => ([], t)
  | text :: texts =>
    let (s, t) := t.intern text
    let (ss, t) := t.internAll texts
    (s :: ss, t)

/-- The names that the language knows, by slot. -/
def knownNames : List String := ["Int", "Float", "String", "Bool", "Void", "main", "printf"]

/-- The table that only knows the names of the language. -/
def initial : SymbolTable := (empty.internAll knownNames).2

end SymbolTable
end Typewright
