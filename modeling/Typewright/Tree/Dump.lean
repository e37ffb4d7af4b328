import Typewright.Decimal.Numeral
import Typewright.Text.Dump
import Typewright.Text.Quoted
import Typewright.Tree.Program

/-!
# Dumps of trees

Every part of a program as a `Dump`: all that a node holds, with the place and the type of each
expression.
-/

set_option autoImplicit false

namespace Typewright

/-- A text in quotes. -/
def Dump.text (s : String) : Dump := .atom (Text.quoted s)

/-- A place: its line and its column. -/
def Position.dump (p : Position) : Dump :=
  .record "Position" [("line", .atom (toString p.line)), ("column", .atom (toString p.column))]

/-- The type on a node, or that there is none. -/
def Ty.dump : Option Ty → Dump
  | none => .atom "None"
  | some t => .variant "Some" (.atom t.name)

/-- A node of an expression: its shape and its note. -/
def Note.dump (n : Note) (kind : Dump) : Dump :=
  .record "Expr" [("kind", kind), ("position", n.position.dump), ("ty", Ty.dump n.ty)]

mutual
/-- An expression: the shape of each node with what it holds. -/
def Expr.dump : Expr → Dump
  | .int note n => note.dump (.variant "Int" (.atom (toString n.toInt)))
  | .float note x => note.dump (.variant "Float" (.atom (Numeral.float x)))
  | .string note s => note.dump (.variant "String" (.text s))
  | .bool note b => note.dump (.variant "Bool" (.atom (if b then "true" else "false")))
  | .var note x => note.dump (.variant "Object" (.text x))
  | .assign note x e =>
    note.dump (.variant "Assignment"
      (.record "AssignmentExpr" [("target", .text x), ("value", e.dump)]))
  | .binary note l op r =>
    note.dump (.variant "Binary"
      (.record "BinaryExpr" [("left", l.dump), ("operator", .atom op.name), ("right", r.dump)]))
  | .unary note op e =>
    note.dump (.variant "Prefix"
      (.record "PrefixExpr" [("operator", .atom op.name), ("right_expr", e.dump)]))
  | .call note f args =>
    note.dump (.variant "Call"
      (.record "CallExpr" [("name", .text f), ("actuals", .list (Expr.dumpAll args))]))
  | .actual note e => note.dump (.variant "Actual" e.dump)
  | .absent note => note.dump (.atom "NoExpr")

/-- The arguments of a call in order. -/
def Expr.dumpAll : List Expr → List Dump
  | [] => []
  | e :: es => e.dump :: Expr.dumpAll es
end

/-- A declared variable, under the name of its kind. -/
def VarDecl.dump (kind : String) (v : VarDecl) : Dump :=
  .record kind
    [("name", .text v.name), ("type_name", .text v.typeName), ("position", v.position.dump)]

mutual
/-- A statement with what it holds. -/
def Stmt.dump : Stmt → Dump
  | .block b => .variant "Block" b.dump
  | .cond p c a b =>
    .variant "If" (.record "IfStmt" [("condition", c.dump), ("then_body", a.dump),
      ("else_body", b.dump), ("position", p.dump)])
  | .whileLoop p c b =>
    .variant "While" (.record "WhileStmt" [("condition", c.dump), ("body", b.dump),
      ("position", p.dump)])
  | .forLoop p i c s b =>
    .variant "For" (.record "ForStmt" [("init", i.dump), ("condition", c.dump), ("step", s.dump),
      ("body", b.dump), ("position", p.dump)])
  | .ret p e => .variant "Return" (.record "ReturnStmt" [("value", e.dump), ("position", p.dump)])
  | .jump p .next => .variant "Continue" (.record "ContinueStmt" [("position", p.dump)])
  | .jump p .leave => .variant "Break" (.record "BreakStmt" [("position", p.dump)])
  | .expr e => .variant "Expression" (.record "ExpressionStmt" [("expression", e.dump)])

/-- A block: its local variables and its statements. -/
def Block.dump : Block → Dump
  | ⟨p, vars, body⟩ =>
    .record "BlockStmt" [("locals", .list (vars.map (VarDecl.dump "VarDecl"))),
      ("body", .list (Stmt.dumpAll body)), ("position", p.dump)]

/-- Statements in order. -/
def Stmt.dumpAll : List Stmt → List Dump
  | [] => []
  | s :: ss => s.dump :: Stmt.dumpAll ss
end

/-- The declaration of a function. -/
def FnDecl.dump (f : FnDecl) : Dump :=
  .record "FnDecl" [("name", .text f.name), ("params", .list (f.params.map (VarDecl.dump "Param"))),
    ("return_type", .text f.returnType), ("body", f.body.dump), ("position", f.position.dump)]

/-- A declaration. -/
def Decl.dump : Decl → Dump
  | .function f => .variant "Function" f.dump
  | .global v => .variant "Variable" (v.dump "VarDecl")

/-- A program: its declarations in order. -/
def Program.dump (p : Program) : Dump :=
  .record "Program" [("decls", .list (p.decls.map Decl.dump))]

end Typewright
