import Typewright.Command
import Typewright.Decimal.Binary
import Typewright.Decimal.Numeral
import Typewright.Decimal.Shortest
import Typewright.Grammar.Cursor
import Typewright.Grammar.Expr
import Typewright.Grammar.Stmt
import Typewright.Grammar.Table
import Typewright.Main
import Typewright.Proofs.Agreement
import Typewright.Proofs.Annotation
import Typewright.Proofs.AnnotationReports
import Typewright.Proofs.BadAnnotation
import Typewright.Proofs.Caret
import Typewright.Proofs.CommandLine
import Typewright.Proofs.Decision
import Typewright.Proofs.Declarations
import Typewright.Proofs.DeclaredPlaces
import Typewright.Proofs.EndOfText
import Typewright.Proofs.ExprDecision
import Typewright.Proofs.ExprParsing
import Typewright.Proofs.ExprPlaces
import Typewright.Proofs.ExprTyping
import Typewright.Proofs.FirstDeclaration
import Typewright.Proofs.FirstError
import Typewright.Proofs.Idempotence
import Typewright.Proofs.Installation
import Typewright.Proofs.Interning
import Typewright.Proofs.Isolation
import Typewright.Proofs.Layout
import Typewright.Proofs.Lexeme
import Typewright.Proofs.LongestMatch
import Typewright.Proofs.LoopContext
import Typewright.Proofs.Places
import Typewright.Proofs.Poison
import Typewright.Proofs.ProgramParsing
import Typewright.Proofs.ProgramTyping
import Typewright.Proofs.Reads
import Typewright.Proofs.Regex
import Typewright.Proofs.Relabeling
import Typewright.Proofs.Renaming
import Typewright.Proofs.Reordering
import Typewright.Proofs.Resolution
import Typewright.Proofs.ScopeHistory
import Typewright.Proofs.SilentPoison
import Typewright.Proofs.SourcePlaces
import Typewright.Proofs.StmtDecision
import Typewright.Proofs.StmtParsing
import Typewright.Proofs.StmtTyping
import Typewright.Proofs.Syntax
import Typewright.Proofs.Tiling
import Typewright.Proofs.Topics
import Typewright.Proofs.Trace
import Typewright.Proofs.Tree
import Typewright.Proofs.TypeSystem
import Typewright.Proofs.Visits
import Typewright.Proofs.Writing
import Typewright.Reading
import Typewright.Report.Diagnostic
import Typewright.Report.Event
import Typewright.Report.Fault
import Typewright.Report.Issue
import Typewright.Symbol
import Typewright.Text.Blank
import Typewright.Text.Combining
import Typewright.Text.Dump
import Typewright.Text.Invisible
import Typewright.Text.Line
import Typewright.Text.Position
import Typewright.Text.Quoted
import Typewright.Token.Basic
import Typewright.Token.Kind
import Typewright.Token.Pattern
import Typewright.Token.Reader
import Typewright.Token.Scan
import Typewright.Tree.Dump
import Typewright.Tree.Expr
import Typewright.Tree.Operator
import Typewright.Tree.Program
import Typewright.Tree.Stmt
import Typewright.Tree.Ty
import Typewright.Typing.Checker
import Typewright.Typing.Expr
import Typewright.Typing.Program
import Typewright.Typing.Registry
import Typewright.Typing.Rule
import Typewright.Typing.Scope
import Typewright.Typing.Stmt
