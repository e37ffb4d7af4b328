/-!
# Types

The five types of the language.  `Ty.void` says that a function returns nothing; a variable cannot
have it.
-/

set_option autoImplicit false

namespace Typewright

/-- A type of the language. -/
inductive Ty where
  | int
  | float
  | string
  | bool
  | void
deriving DecidableEq, Repr, Inhabited

namespace Ty

/-- How a type is written in a program and in messages. -/
def name : Ty → String
  | int => "Int"
  | float => "Float"
  | string => "String"
  | bool => "Bool"
  | void => "Void"

/-- The type that an annotation names, if it names one. -/
def ofName? (s : String) : Option Ty :=
  if s = "Int" then some int
  else if s = "Float" then some float
  else if s = "String" then some string
  else if s = "Bool" then some bool
  else if s = "Void" then some void
  else none

/-- The types that arithmetic and order apply to. -/
def isNumeric : Ty → Bool
  | int | float => true
  | _ => false

/-- The types that `==` and `!=` apply to. -/
def isEquatable : Ty → Bool
  | int | float | bool => true
  | _ => false

/-- The type of a variable with this annotation: any type but `void`. -/
def ofVariable? (typeName : String) : Option Ty :=
  (ofName? typeName).filter (· ≠ void)

@[simp] theorem ofName?_name (t : Ty) : ofName? t.name = some t := by cases t <;> rfl

/-- An annotation names a type exactly when it is that type's name. -/
theorem ofName?_eq_some_iff {s : String} {t : Ty} : ofName? s = some t ↔ s = t.name := by
  refine ⟨fun h ↦ ?_, fun h ↦ h ▸ ofName?_name t⟩
  grind [ofName?, name]

end Ty
end Typewright
