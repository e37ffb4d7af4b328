import Typewright.Report.Fault
import Typewright.Tree.Ty

/-!
# Scopes

A scope binds names; `Scopes` is the stack of the open ones, innermost first.  An inner binding
hides an outer one with the same name until its scope is closed.  Binding a name and closing a
scope need an open scope and are faults without one.
-/

set_option autoImplicit false

namespace Typewright

/-- What a name stands for. -/
inductive Binding where
  /-- A variable of this type. -/
  | typed (ty : Ty)
  /-- A variable whose annotation was refused.  Its name is taken, and using it is no issue. -/
  | rejected
deriving DecidableEq, Repr, Inhabited

namespace Binding

/-- The binding of a variable with this type, or with none that was accepted. -/
def ofTy? : Option Ty → Binding
  | some t => typed t
  | none => rejected

/-- The type of the variable. -/
def ty? : Binding → Option Ty
  | typed t => some t
  | rejected => none

@[simp] theorem ty?_ofTy? (t : Option Ty) : (ofTy? t).ty? = t := by cases t <;> rfl

end Binding

/-- The names that one scope binds; of several entries for a name the first counts. -/
abbrev Scope := List (String × Binding)

/-- The stack of the open scopes, innermost first. -/
structure Scopes where
  frames : List Scope
deriving DecidableEq, Repr

namespace Scopes

/-- No scope is open. -/
def empty : Scopes := ⟨[]⟩

/-- Opens a scope that binds nothing. -/
def enter (s : Scopes) : Scopes := ⟨[] :: s.frames⟩

/-- Closes the innermost scope. -/
def exit (s : Scopes) : Except Fault Scopes :=
  match s.frames with
  | [] => .error .scopeUnderflow
  | _ :: frames => .ok ⟨frames⟩

/-- Binds a name in the innermost scope. -/
def bind (s : Scopes) (name : String) (b : Binding) : Except Fault Scopes :=
  match s.frames with
  | [] => .error (.noOpenScope name)
  | scope :: frames => .ok ⟨((name, b) :: scope) :: frames⟩

/-- What a name stands for: its binding in the innermost scope that binds it. -/
def lookup (s : Scopes) (name : String) : Option Binding :=
  s.frames.findSome? (·.lookup name)

/-- What the innermost scope binds a name to. -/
def probe (s : Scopes) (name : String) : Option Binding :=
  s.frames.head?.bind (·.lookup name)

/-- How many scopes are open. -/
def depth (s : Scopes) : Nat := s.frames.length

@[simp] theorem depth_empty : empty.depth = 0 := rfl

@[simp] theorem depth_enter (s : Scopes) : s.enter.depth = s.depth + 1 := rfl

@[simp] theorem lookup_enter (s : Scopes) (x : String) : s.enter.lookup x = s.lookup x := rfl

@[simp] theorem probe_enter (s : Scopes) (x : String) : s.enter.probe x = none := rfl

/-- Closing the scope that was just opened gives the scopes back. -/
@[simp] theorem exit_enter (s : Scopes) : s.enter.exit = .ok s := rfl

/-- A bound name stands for its binding, and every other name for what it stood for before. -/
theorem lookup_of_bind {s t : Scopes} {x : String} {b : Binding} (h : s.bind x b = .ok t)
    (y : String) : t.lookup y = if y = x then some b else s.lookup y := by
  obtain ⟨frames⟩ := s
  cases frames with
  | nil => simp [bind] at h
  | cons scope frames =>
    obtain rfl : _ = t := by simpa [bind] using h
    by_cases hxy : y = x
    · simp [lookup, hxy]
    · simp [lookup, List.findSome?_cons, List.lookup_cons, hxy, beq_false_of_ne hxy]

/-- Binding a name opens and closes no scope. -/
theorem depth_of_bind {s t : Scopes} {x : String} {b : Binding} (h : s.bind x b = .ok t) :
    t.depth = s.depth := by
  obtain ⟨frames⟩ := s
  cases frames with
  | nil => simp [bind] at h
  | cons scope frames =>
    obtain rfl : _ = t := by simpa [bind] using h
    rfl

end Scopes
end Typewright
