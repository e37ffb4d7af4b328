import Typewright.Grammar.Expr
import Typewright.Tree.Program

/-!
# Reading statements and declarations

A statement opens with the rule that the table has for the current token, and is an expression
with a semicolon where it has none.  Rules are written against the actions `expr` and `stmt` that
read the expressions and the statements inside them.
-/

set_option autoImplicit false

namespace Typewright
namespace Grammar

open Parse

/-! ## Variables

A variable has its type before its name, and the place of its first token, which is `var`. -/

/-- Reads the declaration of a variable, whose first token was looked at already. -/
def varDecl : Parse VarDecl := do
  let start := (← advance).start
  let type ← expectDetailed .identifier "expected type name in variable declaration"
  let name ← expectDetailed .identifier "expected identifier during variable declaration"
  let _ ← expect .semicolon
  return ⟨name.value, type.value, start⟩

/-- Reads the local variables of a block. -/
def locals : Nat → Parse (List VarDecl)
  | 0 => throw .endless
  | n + 1 => do
    if (← kind) = .varWord then
      let v ← varDecl
      return v :: (← locals n)
    else return []

/-! ## Blocks

The variables of a block come first.  A `var` further on starts no statement, and is rejected. -/

/-- Reads statements up to the end of a block. -/
def stmts (stmt : Parse Stmt) : Nat → Parse (List Stmt)
  | 0 => throw .endless
  | n + 1 => do
    let k ← kind
    if k = .endOfText ∨ k = .closeCurly then return []
    else
      let s ← stmt
      return s :: (← stmts stmt n)

/-- Reads a block. -/
def blockOf (stmt : Parse Stmt) (n : Nat) : Parse Block := do
  let t ← expectDetailed .openCurly "expected '\x7b' to open a block"
  let vars ← locals n
  let body ← stmts stmt n
  let _ ← expectDetailed .closeCurly "expected '\x7d' to close a block"
  return ⟨t.start, vars, body⟩

/-! ## Statements

What a statement is read by depends on its first token.  The rules take the actions for expressions
and statements as parameters, so that the recursion is in one place, `stmtWithin`. -/

/-- Reads an `if`.  An `else` with another `if` holds that one in a block of its own. -/
def cond (expr : Parse Expr) (block : Parse Block) : Nat → Parse Stmt
  | 0 => throw .endless
  | n + 1 => do
    let start := (← advance).start
    let condition ← expr
    let thenBody ← block
    if (← kind) = .elseWord then
      let _ ← advance
      if (← kind) = .ifWord then
        let p ← position
        let inner ← cond expr block n
        return .cond start condition thenBody ⟨p, [], [inner]⟩
      else return .cond start condition thenBody (← block)
    else return .cond start condition thenBody (.empty (← position))

/-- Reads an expression, unless `stop` is the current token and there is none. -/
def optional (expr : Parse Expr) (stop : Kind) : Parse Expr := do
  let t ← current
  if t.kind = stop then return .absent { position := t.start } else expr

/-- Reads a statement by one rule. -/
def stmtRule (expr : Parse Expr) (stmt : Parse Stmt) (n : Nat) : StmtRule → Parse Stmt
  | .any => stmt
  | .block => return .block (← blockOf stmt n)
  | .cond => cond expr (blockOf stmt n) n
  | .whileLoop => do
    let start := (← advance).start
    let condition ← expr
    return .whileLoop start condition (← blockOf stmt n)
  | .forLoop => do
    let start := (← advance).start
    let init ← optional expr .semicolon
    let _ ← expect .semicolon
    let condition ← optional expr .semicolon
    let _ ← expect .semicolon
    let step ← optional expr .openCurly
    return .forLoop start init condition step (← blockOf stmt n)
  | .ret => do
    let start := (← advance).start
    let value ← optional expr .semicolon
    let _ ← expect .semicolon
    return .ret start value
  | .jump j => do
    let start := (← advance).start
    let _ ← expect .semicolon
    return .jump start j

/-- Reads a statement within `n` rules. -/
def stmtWithin (table : Table) : Nat → Parse Stmt
  | 0 => throw .endless
  | n + 1 => do
    let k ← kind
    match table.stmt k with
    | some rule => stmtRule (exprWithin table (n + 1) .lowest) (stmtWithin table n) (n + 1) rule
    | none =>
      if k = .varWord then unexpected "local declarations must come before statements"
      else
        let e ← exprWithin table (n + 1) .lowest
        let _ ← expect .semicolon
        return .expr e

/-- Reads a block within `n` rules. -/
def blockWithin (table : Table) (n : Nat) : Parse Block := blockOf (stmtWithin table n) n

/-! ## Declarations

A parameter has its name before its type, the other way round than a variable, and the place of its
name. -/

/-- Reads the parameters of a function, one at least, each with a comma before the next. -/
def params : Nat → Parse (List VarDecl)
  | 0 => throw .endless
  | n + 1 => do
    let name ← expectDetailed .identifier "expected parameter name"
    let type ← expectDetailed .identifier "expected parameter type"
    let v : VarDecl := ⟨name.value, type.value, name.start⟩
    if (← kind) = .comma then
      let _ ← advance
      return v :: (← params n)
    else return [v]

/-- Reads the declaration of a function, whose first token was looked at already. -/
def fnDeclWithin (table : Table) (n : Nat) : Parse FnDecl := do
  let start := (← advance).start
  let name ← expectDetailed .identifier "expected function name"
  let _ ← expect .openParen
  let vars ← if (← kind) = .closeParen then pure [] else params n
  let _ ← expect .closeParen
  let type ← expectDetailed .identifier "expected return type"
  let body ← blockWithin table n
  return ⟨name.value, vars, type.value, body, start⟩

/-- Reads a declaration at the top level. -/
def declWithin (table : Table) (n : Nat) : Parse Decl := do
  match ← kind with
  | .varWord => return .global (← varDecl)
  | .funcWord => return .function (← fnDeclWithin table n)
  | _ => unexpected "expected 'var' or 'func' at top level"

/-- Reads declarations up to the end of the text. -/
def declsWithin (table : Table) : Nat → Parse (List Decl)
  | 0 => throw .endless
  | n + 1 => do
    if (← get).hasTokens then
      let d ← declWithin table n
      return d :: (← declsWithin table n)
    else return []

/-! ## From the current token on

The same actions with as much fuel as the tokens ahead call for. -/

/-- Reads a statement. -/
def stmt (table : Table) : Parse Stmt := budgeted (stmtWithin table)

/-- Reads a statement by one rule. -/
def stmtBy (table : Table) (rule : StmtRule) : Parse Stmt :=
  budgeted fun n ↦ stmtRule (exprWithin table n .lowest) (stmtWithin table n) n rule

/-- Reads a block. -/
def block (table : Table) : Parse Block := budgeted (blockWithin table)

/-- Reads the declaration of a function, whose first token was looked at already. -/
def fnDecl (table : Table) : Parse FnDecl := budgeted (fnDeclWithin table)

/-- Reads a declaration at the top level. -/
def decl (table : Table) : Parse Decl := budgeted (declWithin table)

/-- Reads declarations up to the end of the text. -/
def program (table : Table) : Parse Program := return ⟨← budgeted (declsWithin table)⟩

end Grammar

/-- The program that a list of tokens spells. -/
def Program.ofTokens (ts : List Token) : Except Stop Program :=
  match Cursor.ofTokens? ts with
  | none => .error .noTokens
  | some c =>
    match (Grammar.program .standard).run c with
    | .ok p _ => .ok p
    | .error stop _ => .error stop

end Typewright
