import ScriptFront.Compilation
import ScriptFront.SymbolTable.Listing

/-!
# The command line

The command `compile FILE` prints what is wrong with a file. It can also print
the tokens of the file, and the symbols if nothing is wrong. The exit code is
zero if nothing is wrong, one if something is, and two if the file cannot be
read.
-/
namespace ScriptFront

structure CompileRequest where
  file : String
  showTokens : Bool := false
  showSymbols : Bool := false
deriving DecidableEq, Repr

inductive ReadFailure where
  | missing
  | isDirectory
  /-- The bytes of the file are not a text. -/
  | notText
  | other (message : String)
deriving DecidableEq, Repr

/-- The sentence that explains a failure to read. -/
def ReadFailure.message : ReadFailure → String
  | missing => "No such file or directory (os error 2)"
  | isDirectory => "Is a directory (os error 21)"
  | notText => "stream did not contain valid UTF-8"
  | other message => message

structure CommandReport where
  exitCode : Nat
  output : String := ""
  errors : String := ""
deriving DecidableEq, Repr

namespace CompileRequest

/-- The text of a file from its bytes. -/
def textOfBytes (bytes : ByteArray) : Except ReadFailure String :=
  match String.fromUTF8? bytes with
  | some text => .ok text
  | none => .error .notText

/-- Texts, each with an end of line. -/
def printed (lines : List String) : String :=
  String.join (lines.map (· ++ "\n"))

/-- The report on a compilation: its tokens, its diagnostics, and its symbols. -/
def report (r : CompileRequest) (source : String) (c : Compilation) : CommandReport :=
  let tokens := if r.showTokens then c.tokens.map Token.listing else []
  let diagnostics := c.render source r.file
  match c.artifact? with
  | none => { exitCode := 1, output := printed (tokens ++ diagnostics) }
  | some a =>
    let symbols := if r.showSymbols then a.symbols.listing a.types else []
    { exitCode := 0, output := printed (tokens ++ diagnostics ++ symbols) }

def run (r : CompileRequest) : Except ReadFailure String → CommandReport
  | .ok source => r.report source (Compilation.ofSource source)
  | .error why =>
    { exitCode := 2, errors := "Error reading " ++ r.file ++ ": " ++ why.message ++ "\n" }

/-- A flag that asks for more log output. There is no log. -/
def isVerbosity (arg : String) : Bool :=
  arg = "--verbose" ||
    match arg.toList with
    | '-' :: 'v' :: vs => vs.all (· = 'v')
    | _ => false

/-- Takes one more argument into a request. There can be one file, which comes
first or after the options. -/
def withArgument (request? : Option CompileRequest) (arg : String) : Option CompileRequest := do
  let r ← request?
  if arg = "--tokens" then return { r with showTokens := true }
  else if arg = "--symbols" then return { r with showSymbols := true }
  else if r.file.isEmpty && !arg.startsWith "-" then return { r with file := arg }
  else none

def ofArguments? (args : List String) : Option CompileRequest :=
  match args.filter (! isVerbosity ·) with
  | "compile" :: args =>
    (args.foldl withArgument (some { file := "" })).filter (! ·.file.isEmpty)
  | _ => none

def usage : String :=
  "usage: compile FILE [--tokens] [--symbols] [-v]\n"

end CompileRequest

end ScriptFront
