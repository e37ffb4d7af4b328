import Typewright.Tree.Program

/-!
# Signatures and the registry of functions

A call is checked against the `Signature` of the function, and the `Registry` has at most one
signature for a name.
-/

set_option autoImplicit false

namespace Typewright

/-- What a call has to know of a function. -/
structure Signature where
  name : String
  /-- The types of the parameters; one whose annotation was refused takes any argument. -/
  params : List (Option Ty)
  /-- The annotation of the result. -/
  returnType : String
  position : Position
  /-- Which declaration of the program it is. -/
  index : Nat
deriving DecidableEq, Repr, Inhabited

namespace Signature

/-- The signature of the function that is declaration `index` of a program. -/
def ofDecl (f : FnDecl) (index : Nat) : Signature where
  name := f.name
  params := f.params.map fun v ↦ Ty.ofVariable? v.typeName
  returnType := f.returnType
  position := f.position
  index := index

/-- The type of a call, if the annotation names one. -/
def result? (s : Signature) : Option Ty := Ty.ofName? s.returnType

end Signature

/-- The functions that can be called. -/
structure Registry where
  signatures : List Signature
deriving DecidableEq, Repr

namespace Registry

/-- The registry without functions. -/
def empty : Registry := ⟨[]⟩

/-- Adds a signature, in place of the one that has its name. -/
def install (r : Registry) (s : Signature) : Registry :=
  ⟨r.signatures.filter (·.name ≠ s.name) ++ [s]⟩

/-- The signature of the function with this name. -/
def get? (r : Registry) (name : String) : Option Signature :=
  r.signatures.find? (·.name = name)

/-- There is a function with this name. -/
def contains (r : Registry) (name : String) : Bool := (r.get? name).isSome

/-- The function with this name is declaration `index` of the program. -/
def isInstalled (r : Registry) (name : String) (index : Nat) : Bool :=
  (r.get? name).any (·.index = index)

/-- How many functions there are. -/
def size (r : Registry) : Nat := r.signatures.length

@[simp] theorem get?_empty (name : String) : empty.get? name = none := rfl

/-- The installed signature is found by its name, and every other name as before. -/
theorem get?_install (r : Registry) (s : Signature) (name : String) :
    (r.install s).get? name = if name = s.name then some s else r.get? name := by
  by_cases h : name = s.name
  · subst h
    have : r.signatures.find? (fun _ ↦ false) = none := by
      rw [List.find?_eq_none]
      simp
    simp [get?, install, List.find?_append, List.find?_filter, this]
  · have hs : ¬ s.name = name := fun e ↦ h e.symm
    have : (fun t : Signature ↦ !decide (t.name = s.name) && decide (t.name = name))
        = fun t ↦ decide (t.name = name) := by
      funext t
      by_cases ht : t.name = name <;> simp [ht, h]
    simp [get?, install, List.find?_append, List.find?_filter, h, hs, this]

end Registry
end Typewright
