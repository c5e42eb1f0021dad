import ScriptFront.Diagnostic.Basic
import ScriptFront.Source.Scanner
import ScriptFront.Text.Basic
import ScriptFront.Token.Basic

/-!
# Diagnostics with their line

A rendered diagnostic has six lines: the fault, the file and the place, the
message, and the line of the program between two ruled lines, of which the
last points at the place with a caret.

Before there are tokens the line is the line of the source. Later it is put
together from the tokens that begin on it, with one blank between them.
-/
namespace ScriptFront

/-- A line of a program and the number of characters before the place in
question. -/
structure MarkedLine where
  text : String
  caret : Nat
deriving DecidableEq, Repr

namespace MarkedLine

/-- The line of the source at a position. A line number or column of zero is
read as one. -/
def ofSource (source : String) (p : Position) : MarkedLine :=
  ⟨Source.line source p.line, p.column - 1⟩

/-- Adds a token to a line under construction, and marks it if it begins at
the position. -/
def addToken (p : Position) (line : String × Option Nat) (t : Token) : String × Option Nat :=
  let text := if line.1.isEmpty then line.1 else line.1 ++ " "
  (text ++ t.display, if t.position = p then some text.length else line.2)

/-- The line of a position, from the tokens that begin on it. The caret is put
behind the line if none of them begins at the position. -/
def ofTokens (tokens : List Token) (p : Position) : MarkedLine :=
  let onLine := tokens.filter fun t => t.position.line = p.line ∧ t.kind ≠ .endOfInput
  let line := onLine.foldl (addToken p) ("", none)
  ⟨line.1, line.2.getD line.1.length⟩

end MarkedLine

namespace Diagnostic

def render (d : Diagnostic) (file : String) (line : MarkedLine) : String :=
  let number := toString d.position.line
  let rule := Text.padLeft (number.length + 2) ' ' "|"
  let heading :=
    match d.fault.tip? with
    | none => d.fault.name
    | some tip => d.fault.name ++ " (" ++ tip ++ ")"
  "Error: " ++ heading ++ "\n" ++
  "-> " ++ file ++ ":" ++ d.position.text ++ "\n" ++
  d.fault.message ++ "\n" ++
  rule ++ "\n" ++
  number ++ " | " ++ line.text ++ "\n" ++
  rule ++ " " ++ Text.padLeft (line.caret + 1) '-' "^" ++ "\n"

def renderFromSource (d : Diagnostic) (file source : String) : String :=
  d.render file (.ofSource source d.position)

def renderFromTokens (d : Diagnostic) (file : String) (tokens : List Token) : String :=
  d.render file (.ofTokens tokens d.position)

end Diagnostic

end ScriptFront
