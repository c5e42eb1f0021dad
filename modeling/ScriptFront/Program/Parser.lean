import ScriptFront.Program.Basic
import ScriptFront.Stmt.Parser

/-!
# Parsing programs

A program is any number of function definitions and global variables up to the
end of the input. A definition is tried as a function first. What is left over
is reported at the furthest read of any alternative.
-/
namespace ScriptFront

namespace Parser

def param : Parser Param :=
  attempt "parameter" do
    let type ← typeName
    let name ← accept .identifier
    return ⟨type, name, none⟩

/-- Reads a comma and a parameter. -/
def nextParam : Parser Param :=
  attempt "parameter list" do
    let _ ← accept .comma
    param

/-- Reads parameters and the commas between them. No parameter is a match
too. -/
def paramList : Parser (List Param) := do
  let params? ← optional <| attempt "parameter list" do
    let first ← param
    let rest ← many nextParam
    return first :: rest
  return params?.getD []

def fnDef : Parser FnDef :=
  attempt "function definition" do
    let returnType ← typeName
    let name ← accept .identifier
    let openParen ← accept .openParen
    let params ← paramList
    let _ ← accept .closeParen
    let (body, openBrace) ← block
    return ⟨returnType, name, params, openParen, body, openBrace, none⟩

def globalVar : Parser GlobalVar :=
  attempt "global variable declaration" do
    let type ← typeName
    let name ← accept .identifier
    let _ ← accept .semicolon
    return ⟨type, name, none⟩

def global : Parser Global :=
  (Global.function <$> fnDef).orElse (Global.var <$> globalVar)

/-- Reads a program and stops at the end of the input. -/
def program : Parser Program := do
  let globals ← many global
  if (← currentKind) = .endOfInput then return ⟨globals⟩ else stop

end Parser

/-- The program that a list of tokens spells. -/
def Program.ofTokens (tokens : List Token) : Except Diagnostic Program :=
  Parser.program.result (.ofTokens tokens "program")

end ScriptFront
