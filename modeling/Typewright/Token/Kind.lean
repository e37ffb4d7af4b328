/-!
# Kinds of tokens

A token is a number, a string, an identifier, one of the marks of the language, one of its reserved
words, or the end of the text.  Marks and words have one spelling each (`Kind.spelling?`).
-/

set_option autoImplicit false

namespace Typewright

/-- What a token is. -/
inductive Kind where
  | endOfText
  | number
  | string
  | identifier
  /-- The mark `{`. -/
  | openCurly
  /-- The mark `}`. -/
  | closeCurly
  /-- The mark `(`. -/
  | openParen
  /-- The mark `)`. -/
  | closeParen
  /-- The mark `=`. -/
  | assignment
  /-- The mark `==`. -/
  | equals
  /-- The mark `!`. -/
  | not
  /-- The mark `!=`. -/
  | notEquals
  /-- The mark `<`. -/
  | less
  /-- The mark `<=`. -/
  | lessEquals
  /-- The mark `>`. -/
  | greater
  /-- The mark `>=`. -/
  | greaterEquals
  /-- The mark `||`. -/
  | or
  /-- The mark `&&`. -/
  | and
  /-- The mark `^`. -/
  | caret
  /-- The mark `&`. -/
  | ampersand
  /-- The mark `|`. -/
  | pipe
  /-- The mark `~`. -/
  | tilde
  /-- The mark `;`. -/
  | semicolon
  /-- The mark `,`. -/
  | comma
  /-- The mark `+`. -/
  | plus
  /-- The mark `-`. -/
  | dash
  /-- The mark `/`. -/
  | slash
  /-- The mark `*`. -/
  | star
  /-- The mark `%`. -/
  | percent
  /-- The word `var`. -/
  | varWord
  /-- The word `func`. -/
  | funcWord
  /-- The word `return`. -/
  | returnWord
  /-- The word `if`. -/
  | ifWord
  /-- The word `else`. -/
  | elseWord
  /-- The word `while`. -/
  | whileWord
  /-- The word `for`. -/
  | forWord
  /-- The word `break`. -/
  | breakWord
  /-- The word `continue`. -/
  | continueWord
  /-- The word `true`. -/
  | trueWord
  /-- The word `false`. -/
  | falseWord
deriving DecidableEq, Repr, Inhabited

namespace Kind

/-- The name of a kind in messages. -/
def name : Kind → String
  | endOfText => "EOF"
  | number => "Number"
  | string => "String"
  | identifier => "Identifier"
  | openCurly => "OpenCurly"
  | closeCurly => "CloseCurly"
  | openParen => "OpenParen"
  | closeParen => "CloseParen"
  | assignment => "Assignment"
  | equals => "Equals"
  | not => "Not"
  | notEquals => "NotEquals"
  | less => "Less"
  | lessEquals => "LessEquals"
  | greater => "Greater"
  | greaterEquals => "GreaterEquals"
  | or => "Or"
  | and => "And"
  | caret => "Caret"
  | ampersand => "Ampersand"
  | pipe => "Pipe"
  | tilde => "Tilde"
  | semicolon => "Semicolon"
  | comma => "Comma"
  | plus => "Plus"
  | dash => "Dash"
  | slash => "Slash"
  | star => "Star"
  | percent => "Percent"
  | varWord => "Var"
  | funcWord => "Func"
  | returnWord => "Return"
  | ifWord => "If"
  | elseWord => "Else"
  | whileWord => "While"
  | forWord => "For"
  | breakWord => "Break"
  | continueWord => "Continue"
  | trueWord => "True"
  | falseWord => "False"

/-- The one spelling of a mark or a reserved word. -/
def spelling? : Kind → Option String
  | openCurly => some "\x7b"
  | closeCurly => some "\x7d"
  | openParen => some "("
  | closeParen => some ")"
  | assignment => some "="
  | equals => some "=="
  | not => some "!"
  | notEquals => some "!="
  | less => some "<"
  | lessEquals => some "<="
  | greater => some ">"
  | greaterEquals => some ">="
  | or => some "||"
  | and => some "&&"
  | caret => some "^"
  | ampersand => some "&"
  | pipe => some "|"
  | tilde => some "~"
  | semicolon => some ";"
  | comma => some ","
  | plus => some "+"
  | dash => some "-"
  | slash => some "/"
  | star => some "*"
  | percent => some "%"
  | varWord => some "var"
  | funcWord => some "func"
  | returnWord => some "return"
  | ifWord => some "if"
  | elseWord => some "else"
  | whileWord => some "while"
  | forWord => some "for"
  | breakWord => some "break"
  | continueWord => some "continue"
  | trueWord => some "true"
  | falseWord => some "false"
  | endOfText | number | string | identifier => none

theorem toList_ne_nil_of_spelling? {k : Kind} {text : String} (h : k.spelling? = some text) :
    text.toList ≠ [] := by
  cases k <;> simp only [spelling?, reduceCtorEq, Option.some.injEq] at h <;> subst h <;> decide

/-- The reserved words. -/
def words : List Kind :=
  [varWord, funcWord, returnWord, ifWord, elseWord, whileWord,
    forWord, breakWord, continueWord, trueWord, falseWord]

/-- The reserved word that is spelt `text`, if there is one. -/
def reserved? (text : String) : Option Kind := words.find? fun k ↦ k.spelling? = some text

end Kind
end Typewright
