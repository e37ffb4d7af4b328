import Typewright.Reading
import Typewright.Tree.Dump
import Typewright.Typing.Program

/-!
# The command

The command checks one file.  `Options.parse` reads its arguments, and `Command.run` gives what it
writes and its exit code for the arguments and for what is in the file, so that nothing here touches
the world.

The exit code is 0 when the file was accepted or help was asked for, 1 when it has issues, 2 when
the arguments are wrong or a check broke down, and 66 when the file cannot be read.
-/

set_option autoImplicit false

namespace Typewright

/-! ## Arguments

Arguments are read from left to right.  The first that is wrong ends the reading, and so does a
request for help or for the version. -/

/-- What the arguments ask for. -/
structure Options where
  file : String
  verbose : Bool
  entry : String
  emitTree : Bool
deriving DecidableEq, Repr

/-- What is wrong with the arguments. -/
inductive UsageError where
  | unknownArgument (arg : String)
  | repeatedArgument (arg : String)
  | missingValue (arg : String)
  | unwantedValue (arg : String)
  | missingFile
deriving DecidableEq, Repr

/-- The usage error in words. -/
def UsageError.message : UsageError → String
  | unknownArgument arg => "error: unexpected argument '" ++ arg ++ "' found"
  | repeatedArgument arg => "error: the argument '" ++ arg ++ "' cannot be used multiple times"
  | missingValue arg => "error: a value is required for '" ++ arg ++ "' but none was supplied"
  | unwantedValue arg => "error: unexpected value for '" ++ arg ++ "' found"
  | missingFile => "error: the required argument <FILE> was not provided"

/-- What the command is to do. -/
inductive Request where
  | check (o : Options)
  | help
  | version
deriving DecidableEq, Repr

/-- The arguments seen so far. -/
structure Options.Partial where
  file : Option String := none
  verbose : Bool := false
  entry : Option String := none
  emitTree : Bool := false

namespace Options

/-- An argument that is read as an option: a dash and more. -/
def isOption (arg : String) : Bool := "-".toList.isPrefixOf arg.toList && arg ≠ "-"

/-- Everything that was seen, once the arguments are at their end. -/
def Partial.finish (o : Partial) : Except UsageError Request :=
  match o.file with
  | none => .error .missingFile
  | some file =>
    .ok (.check ⟨file, o.verbose, o.entry.getD Checker.mainName, o.emitTree⟩)

/-- Takes the file, of which there is only one. -/
def Partial.setFile (o : Partial) (arg : String) : Except UsageError Partial :=
  if o.file.isSome then .error (.unknownArgument arg)
  else if arg = "" then .error (.missingValue "<FILE>")
  else .ok { o with file := some arg }

/-- Takes the name of the entry function. -/
def Partial.setEntry (o : Partial) (name : String) : Except UsageError Partial :=
  if o.entry.isSome then .error (.repeatedArgument "--entry")
  else .ok { o with entry := some name }

/-- Asks for the log. -/
def Partial.setVerbose (o : Partial) : Except UsageError Partial :=
  if o.verbose then .error (.repeatedArgument "--verbose") else .ok { o with verbose := true }

/-- Asks for the tree. -/
def Partial.setEmitTree (o : Partial) : Except UsageError Partial :=
  if o.emitTree then .error (.repeatedArgument "--emit-typed-ast")
  else .ok { o with emitTree := true }

/-- What reading an argument leads to: the end, or more arguments. -/
inductive Step where
  | done (r : Request)
  | more (o : Partial)

/-- Reads short options that share one dash, in order. -/
def short (o : Partial) : List Char → Except UsageError Step
  | [] => .ok (.more o)
  | 'h' :: _ => .ok (.done .help)
  | 'V' :: _ => .ok (.done .version)
  | 'v' :: cs => do short (← o.setVerbose) cs
  | c :: _ => .error (.unknownArgument ("-" ++ String.singleton c))

/-- Reads a long option without a value. -/
def long (o : Partial) (name : String) : Except UsageError Step :=
  match name with
  | "--help" => .ok (.done .help)
  | "--version" => .ok (.done .version)
  | "--verbose" => .more <$> o.setVerbose
  | "--emit-typed-ast" => .more <$> o.setEmitTree
  | _ => .error (.unknownArgument name)

/-- Reads a long option with a value behind an equals sign. -/
def longWith (o : Partial) (name value : String) : Except UsageError Step :=
  match name with
  | "--entry" => .more <$> o.setEntry value
  | "--help" | "--version" | "--verbose" | "--emit-typed-ast" => .error (.unwantedValue name)
  | _ => .error (.unknownArgument name)

/-- Reads one argument that is no option with a separate value. -/
def single (o : Partial) (arg : String) : Except UsageError Step :=
  match arg.toList with
  | '-' :: '-' :: _ =>
    let name := arg.toList.takeWhile (· ≠ '=')
    match arg.toList.drop name.length with
    | [] => long o arg
    | _ :: value => longWith o (String.ofList name) (String.ofList value)
  | '-' :: c :: cs => short o (c :: cs)
  | _ => .more <$> o.setFile arg

/-- Takes the arguments that stand behind `--`, none of which is an option. -/
def files (o : Partial) : List String → Except UsageError Request
  | [] => o.finish
  | arg :: args => do files (← o.setFile arg) args

/-- Reads the arguments in order. -/
def parseFrom (o : Partial) : List String → Except UsageError Request
  | [] => o.finish
  | "--" :: args => files o args
  | "--entry" :: value :: args =>
    if isOption value then .error (.missingValue "--entry")
    else do parseFrom (← o.setEntry value) args
  | "--entry" :: [] => .error (.missingValue "--entry")
  | arg :: args => do
    match ← single o arg with
    | .done r => return r
    | .more o => parseFrom o args

/-- Reads the arguments of the command. -/
def parse (args : List String) : Except UsageError Request := parseFrom {} args

end Options

/-! ## Running

What the command does with a file.  What is in the file is an argument, so all of this is pure. -/

/-- Why a file cannot be read. -/
inductive ReadFailure where
  | notFound
  | notDirectory
  | isDirectory
  /-- Its bytes are not the UTF-8 form of a text. -/
  | notText
  /-- Any other reason, in words. -/
  | other (message : String)
deriving DecidableEq, Repr

/-- The reason in words. -/
def ReadFailure.message : ReadFailure → String
  | notFound => "No such file or directory (os error 2)"
  | notDirectory => "Not a directory (os error 20)"
  | isDirectory => "Is a directory (os error 21)"
  | notText => "stream did not contain valid UTF-8"
  | other message => message

/-- What the command writes and how it ends. -/
structure Outcome where
  exit : Nat
  stdout : String := ""
  stderr : String := ""
deriving DecidableEq, Repr

namespace Command

/-- The text that help shows. -/
def usage : String :=
  "Type checks a source file and reports every static semantic error\n\n"
    ++ "Usage: typewright [OPTIONS] <FILE>\n\n"
    ++ "Options:\n"
    ++ "  -v, --verbose         Log every node that is checked\n"
    ++ "      --entry <NAME>    Name of the entry function [default: main]\n"
    ++ "      --emit-typed-ast  Print the tree with its types when the file is accepted\n"
    ++ "  -h, --help            Print help\n"
    ++ "  -V, --version         Print version\n"

/-- Lines as a text. -/
def unlines (ls : List String) : String := String.join (ls.map (· ++ "\n"))

/-- What is logged, if that was asked for. -/
def logged (o : Options) (log : List Event) : String :=
  if o.verbose then unlines (log.map Event.line) else ""

/-- Checks a source text. -/
def check (o : Options) (source : String) : Outcome :=
  let r := Program.read source
  match r.result with
  | .error refusal =>
    let shown := match refusal.diagnostic? with
      | some d => d.excerpt o.file source
      | none => "Error: no program\n"
    { exit := 1, stderr := logged o r.log ++ shown }
  | .ok p =>
    match p.check o.entry with
    | .error f => { exit := 2, stderr := logged o r.log ++ f.fatal ++ "\n" }
    | .ok (q, c) =>
      let log := logged o (r.log ++ c.log.toList)
      if c.diagnostics.isEmpty then
        { exit := 0, stderr := log
          stdout := if o.emitTree then q.dump.indented 0 ++ "\n" else "" }
      else
        let lines := c.diagnostics.map Diagnostic.summary
          ++ [(Rejection.halted c.diagnostics).message]
        { exit := 1, stderr := log ++ unlines lines }

/-- Checks the bytes of a file, or tells why they could not be read. -/
def checkFile (o : Options) (bytes : Except ReadFailure ByteArray) : Outcome :=
  let source : Except ReadFailure String := do
    match String.fromUTF8? (← bytes) with
    | some s => return s
    | none => throw .notText
  match source with
  | .ok s => check o s
  | .error e =>
    { exit := 66, stderr := "Failed to read " ++ o.file ++ ": " ++ e.message ++ "\n" }

/-- The file that the arguments ask for, if they ask for one. -/
def file? (args : List String) : Option String :=
  match Options.parse args with
  | .ok (.check o) => some o.file
  | _ => none

/-- Runs the command on its arguments, where `bytes` is what is in the file that they ask for. -/
def run (args : List String) (bytes : Except ReadFailure ByteArray) : Outcome :=
  match Options.parse args with
  | .error e => { exit := 2, stderr := e.message ++ "\n\n" ++ usage }
  | .ok .help => { exit := 0, stdout := usage }
  | .ok .version => { exit := 0, stdout := "typewright 0.1.0\n" }
  | .ok (.check o) => checkFile o bytes

end Command
end Typewright
