/-!
# Dumps of structured values

A `Dump` is a value as a tree of records, variants and lists over plain texts.  It is written on one
line (`Dump.flat`) or with every item on a line of its own (`Dump.indented`), four spaces further in
than what it belongs to and with a comma after it.
-/

set_option autoImplicit false

namespace Typewright

/-- A structured value. -/
inductive Dump where
  /-- A plain text. -/
  | atom (text : String)
  /-- A name and fields with names. -/
  | record (name : String) (fields : List (String × Dump))
  /-- A name and what it is applied to. -/
  | variant (name : String) (item : Dump)
  | list (items : List Dump)

namespace Dump

mutual
/-- The value on one line. -/
def flat : Dump → String
  | atom text => text
  | record name fields => name ++ " \x7b " ++ ", ".intercalate (flatFields fields) ++ " \x7d"
  | variant name item => name ++ "(" ++ flat item ++ ")"
  | list items => "[" ++ ", ".intercalate (flatItems items) ++ "]"

/-- The fields of a record, each on one line. -/
def flatFields : List (String × Dump) → List String
  | [] => []
  | (name, d) :: fields => (name ++ ": " ++ flat d) :: flatFields fields

/-- The items of a list, each on one line. -/
def flatItems : List Dump → List String
  | [] => []
  | d :: items => flat d :: flatItems items
end

/-- A line break and the spaces in front of a line that is `depth` levels in. -/
def lineAt (depth : Nat) : String := "\n" ++ String.ofList (List.replicate (4 * depth) ' ')

mutual
/-- The value on several lines, of which the first is `depth` levels in. -/
def indented (depth : Nat) : Dump → String
  | atom text => text
  | record name fields =>
    name ++ " \x7b" ++ String.join (indentedFields (depth + 1) fields) ++ lineAt depth ++ "\x7d"
  | variant name item =>
    name ++ "(" ++ lineAt (depth + 1) ++ indented (depth + 1) item ++ "," ++ lineAt depth ++ ")"
  | list [] => "[]"
  | list (d :: items) =>
    "[" ++ String.join (indentedItems (depth + 1) (d :: items)) ++ lineAt depth ++ "]"

/-- The fields of a record, each on lines of its own. -/
def indentedFields (depth : Nat) : List (String × Dump) → List String
  | [] => []
  | (name, d) :: fields =>
    (lineAt depth ++ name ++ ": " ++ indented depth d ++ ",") :: indentedFields depth fields

/-- The items of a list, each on lines of its own. -/
def indentedItems (depth : Nat) : List Dump → List String
  | [] => []
  | d :: items => (lineAt depth ++ indented depth d ++ ",") :: indentedItems depth items
end

end Dump
end Typewright
