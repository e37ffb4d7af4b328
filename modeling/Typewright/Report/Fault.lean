import Typewright.Text.Quoted

/-!
# Faults

A fault is a break of the scope discipline of a check: not something wrong with the program that is
checked, but with the order in which scopes were opened, used and closed.
-/

set_option autoImplicit false

namespace Typewright

/-- A break of the scope discipline. -/
inductive Fault where
  /-- A scope was closed while none was open. -/
  | scopeUnderflow
  /-- A name was bound while no scope was open. -/
  | noOpenScope (name : String)
  /-- Scopes were left open at the end. -/
  | unbalancedScopes (depth : Nat)
deriving DecidableEq, Repr, Inhabited

namespace Fault

/-- The name of the kind of fault. -/
def name : Fault → String
  | scopeUnderflow => "ScopeUnderflow"
  | noOpenScope _ => "NoOpenScope"
  | unbalancedScopes _ => "UnbalancedScopes"

/-- The fault in words. -/
def message : Fault → String
  | scopeUnderflow => "exit_scope called with no open scope"
  | noOpenScope name => "bind of " ++ Text.quoted name ++ " attempted with no open scope"
  | unbalancedScopes depth => "scope stack left at depth " ++ toString depth ++ " after the pass"

/-- The fault as a reason to stop. -/
def fatal (f : Fault) : String := "FATAL: " ++ f.message

end Fault
end Typewright
