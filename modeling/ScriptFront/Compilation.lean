import ScriptFront.Diagnostic.Rendering
import ScriptFront.Program.Checking
import ScriptFront.Program.Cleanup
import ScriptFront.Program.Declarations
import ScriptFront.Program.Parser
import ScriptFront.Token.Lexer

/-!
# Compilations

A source text is cut into tokens, parsed, cleaned up, and analysed twice: first
its declarations, then everything else. Each stage begins only if the one
before it has found nothing wrong. Each of the first two stops at its first
fault, each analysis reports all of its faults.
-/
namespace ScriptFront

/-- What is known about a program without faults. -/
structure Artifact where
  program : Program
  symbols : SymbolTable
  types : TypeTable

/-- The result of compiling a source text. There are no tokens if the text could
not be cut into tokens. -/
structure Compilation where
  tokens : List Token
  diagnostics : List Diagnostic
  artifact? : Option Artifact

namespace Compilation

def failed (tokens : List Token) (diagnostics : List Diagnostic) : Compilation :=
  ⟨tokens, diagnostics, none⟩

/-- Analyses a program and goes on to the second analysis if there is nothing
wrong after the first. -/
def ofProgram (tokens : List Token) (program : Program) : Compilation :=
  let types := TypeTable.primitives
  let declared := (program.declare types).run SymbolTable.empty
  let (program, symbols) := declared.value
  if declared.diagnostics.isEmpty then
    let checked := program.check types symbols
    if checked.diagnostics.isEmpty then ⟨tokens, [], some ⟨checked.value, symbols, types⟩⟩
    else failed tokens checked.diagnostics
  else failed tokens declared.diagnostics

def ofSource (source : String) : Compilation :=
  match Token.ofSource source with
  | .error d => failed [] [d]
  | .ok tokens =>
    match Program.ofTokens tokens with
    | .error d => failed tokens [d]
    | .ok program => ofProgram tokens program.cleanup.value

def isSuccess (c : Compilation) : Bool := c.diagnostics.isEmpty

/-- The diagnostics with their lines: the line of the source if there are no
tokens, and otherwise the line that the tokens show. -/
def render (c : Compilation) (source file : String) : List String :=
  c.diagnostics.map fun d =>
    if d.fault.isLexical then d.renderFromSource file source
    else d.renderFromTokens file c.tokens

end Compilation

end ScriptFront
