import Typewright.Tree.Stmt

/-!
# Programs

A program is a list of declarations, each a function or a global variable.
-/

set_option autoImplicit false

namespace Typewright

/-- The declaration of a function. -/
structure FnDecl where
  name : String
  params : List VarDecl
  /-- The annotation of the result, which need not name a type. -/
  returnType : String
  body : Block
  position : Position

/-- A declaration at the top level. -/
inductive Decl where
  | function (f : FnDecl)
  | global (v : VarDecl)

/-- A program: its declarations in order. -/
structure Program where
  decls : List Decl

namespace Decl

/-- The function that is declared, if it is one. -/
def function? : Decl → Option FnDecl
  | function f => some f
  | global _ => none

/-- The global variable that is declared, if it is one. -/
def global? : Decl → Option VarDecl
  | function _ => none
  | global v => some v

end Decl

namespace Program

/-- The global variables in order. -/
def globals (p : Program) : List VarDecl := p.decls.filterMap Decl.global?

end Program
end Typewright
