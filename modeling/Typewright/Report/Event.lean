import Typewright.Report.Diagnostic

/-!
# Events

The log of a run is a list of events.  Reporting a diagnostic is an event too, so the diagnostics
of a run are read off its log (`Event.diagnostics`).
-/

set_option autoImplicit false

namespace Typewright

/-- How much detail an event is. -/
inductive Level where
  | debug
  | trace
deriving DecidableEq, Repr, Inhabited

/-- The level in a log line. -/
def Level.name : Level → String
  | debug => "DEBUG"
  | trace => "TRACE"

/-- One step of a run. -/
inductive Event where
  | tokenized (count : Nat)
  | parsed (count : Nat)
  | installingFunction (name : String) (position : Position)
  | installedFunctions (count : Nat)
  | installingGlobal (name : String) (position : Position)
  | installedGlobals (count : Nat)
  | enteredScope (depth : Nat)
  | exitingScope (depth : Nat)
  | skippingFunction (name : String) (position : Position)
  | checkingFunction (name : String) (position : Position)
  | checkedFunction (name : String) (count : Nat)
  | declaringLocal (name : String) (position : Position)
  | checkingStatement (position : Position)
  | checkingExpression (position : Position)
  | reported (d : Diagnostic)
  | finished (count : Nat)
deriving DecidableEq, Repr, Inhabited

namespace Event

/-- Single steps of a check are traced; totals and diagnostics are on the level above. -/
def level : Event → Level
  | tokenized _ | parsed _ | installedFunctions _ | installedGlobals _ | checkedFunction _ _
  | reported _ | finished _ => .debug
  | _ => .trace

/-- The event in words. -/
def message : Event → String
  | tokenized n => "tokenized " ++ toString n ++ " tokens"
  | parsed n => "parsed " ++ toString n ++ " top-level declarations"
  | installingFunction f p => "installing function " ++ f ++ " at " ++ p.text
  | installedFunctions n => "installed " ++ toString n ++ " functions"
  | installingGlobal x p => "installing global " ++ x ++ " at " ++ p.text
  | installedGlobals n => "installed " ++ toString n ++ " globals"
  | enteredScope n => "enter scope (depth " ++ toString n ++ ")"
  | exitingScope n => "exit scope (depth " ++ toString n ++ ")"
  | skippingFunction f p => "skipping uninstalled function " ++ f ++ " at " ++ p.text
  | checkingFunction f p => "checking function " ++ f ++ " at " ++ p.text
  | checkedFunction f n => "function " ++ f ++ ": " ++ toString n ++ " diagnostics"
  | declaringLocal x p => "declaring local " ++ x ++ " at " ++ p.text
  | checkingStatement p => "checking statement at " ++ p.text
  | checkingExpression p => "checking expression at " ++ p.text
  | reported d => "diagnostic: " ++ d.summary
  | finished n => "semantic pass finished with " ++ toString n ++ " diagnostics"

/-- A line of the log: the level and the event. -/
def line (e : Event) : String := e.level.name ++ " " ++ e.message

/-- The diagnostic that the event reports. -/
def diagnostic? : Event → Option Diagnostic
  | reported d => some d
  | _ => none

/-- The diagnostics that a log reports, in order. -/
def diagnostics (log : List Event) : List Diagnostic := log.filterMap diagnostic?

@[simp] theorem diagnostics_nil : diagnostics [] = [] := rfl

@[simp] theorem diagnostics_reported (d : Diagnostic) (log : List Event) :
    diagnostics (reported d :: log) = d :: diagnostics log := rfl

@[simp] theorem diagnostics_append (log more : List Event) :
    diagnostics (log ++ more) = diagnostics log ++ diagnostics more :=
  List.filterMap_append

end Event
end Typewright
