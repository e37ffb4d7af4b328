import Typewright.Decimal.Numeral
import Typewright.Grammar.Cursor
import Typewright.Grammar.Table
import Typewright.Tree.Expr

/-!
# Reading expressions

An expression opens with the rule that the table has for the current token.  While the current token
binds more strongly than asked for, the expression goes on with the rule that the table has for it.
Each rule is written against an action `expr` that reads the expressions inside it.
-/

set_option autoImplicit false

namespace Typewright
namespace Grammar

open Parse

/-- The literal or the variable that a token stands for. -/
def primary (t : Token) : Except Diagnostic Expr :=
  let note : Note := { position := t.start }
  match t.kind with
  | .number =>
    if '.' ∈ t.value.toList then
      match Numeral.decimal? t.value with
      | some x => .ok (.float note x)
      | none => .error (.located (.malformedNumber t.value) t.start)
    else
      match Numeral.integer? t.value with
      | some n => .ok (.int note n)
      | none => .error (.located (.malformedNumber t.value) t.start)
  | .identifier => .ok (.var note t.value)
  | .string => .ok (.string note t.value)
  | .trueWord => .ok (.bool note true)
  | .falseWord => .ok (.bool note false)
  | _ => .error t.unexpected

/-- Reads the opening of an expression. -/
def opening (expr : Power → Parse Expr) : Opening → Parse Expr
  | .primary => do
    match primary (← advance) with
    | .ok e => return e
    | .error d => fail d
  | .unary => do
    let t ← advance
    match UnaryOp.ofKind? t.kind with
    | none => fail t.unexpected
    | some op => return .unary { position := t.start } op (← expr .unary)
  | .grouping => do
    let _ ← advance
    let e ← expr .lowest
    let _ ← expectDetailed .closeParen "expected ')' to close grouping"
    return e

/-- Reads the arguments of a call, one at least, each with a comma before the next. -/
def actuals (expr : Power → Parse Expr) : Nat → Parse (List Expr)
  | 0 => throw .endless
  | n + 1 => do
    let e ← expr .lowest
    let a := Expr.actual { position := e.position } e
    if (← kind) = .comma then
      let _ ← advance
      return a :: (← actuals expr n)
    else return [a]

/-- Reads how an expression goes on after `left`.  Only a variable can be assigned to or called, and
the value of an assignment may be an assignment again. -/
def following (expr : Power → Parse Expr) (n : Nat) (left : Expr) (p : Power) :
    Following → Parse Expr
  | .binary => do
    let t ← advance
    match BinaryOp.ofKind? t.kind with
    | none => fail t.unexpected
    | some op => return .binary { position := left.position } left op (← expr p)
  | .assignment =>
    match left with
    | .var note target => do
      let _ ← advance
      return .assign { position := note.position } target (← expr .comma)
    | _ => unexpected "left side of '=' must be a variable name"
  | .call =>
    match left with
    | .var note callee => do
      let _ ← advance
      let args ← if (← kind) = .closeParen then pure [] else actuals expr n
      let _ ← expectDetailed .closeParen "expected ')' after call arguments"
      return .call { position := note.position } callee args
    | _ => unexpected "only named functions can be called"

/-- Goes on with the expression `left` while the current token binds more strongly than `p`. -/
def climb (table : Table) (expr : Power → Parse Expr) (p : Power) : Nat → Expr → Parse Expr
  | 0, _ => throw .endless
  | n + 1, left => do
    let t ← current
    let q := table.power t.kind
    if p < q then
      match table.following t.kind with
      | none => fail t.unexpected
      | some rule => climb table expr p n (← following expr n left q rule)
    else return left

/-- Reads an expression all of whose operators bind more strongly than `p`, within `n` rules. -/
def exprWithin (table : Table) : Nat → Power → Parse Expr
  | 0, _ => throw .endless
  | n + 1, p => do
    let t ← current
    match table.opening t.kind with
    | none => fail t.unexpected
    | some rule =>
      let left ← opening (exprWithin table n) rule
      climb table (exprWithin table n) p (n + 1) left

/-- Reads an expression all of whose operators bind more strongly than `p`. -/
def expr (table : Table) (p : Power) : Parse Expr := budgeted fun n ↦ exprWithin table n p

/-- Reads the opening of an expression by one rule. -/
def openingBy (table : Table) (rule : Opening) : Parse Expr :=
  budgeted fun n ↦ opening (exprWithin table n) rule

/-- Reads by one rule how an expression goes on after `left`; where that is missing, an expression
that was left out at the current token takes its place. -/
def followingBy (table : Table) (left : Option Expr) (p : Power) (rule : Following) :
    Parse Expr :=
  budgeted fun n ↦ do
    let here ← position
    following (exprWithin table n) n (left.getD (.absent { position := here })) p rule

end Grammar
end Typewright
