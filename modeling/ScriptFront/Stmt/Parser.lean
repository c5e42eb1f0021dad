import ScriptFront.Expr.Parser
import ScriptFront.Stmt.Basic

/-!
# Parsing statements

A statement is tried as each of its forms in turn. A form that does not match
leaves the cursor where it was. A `while` is committed after its first word, an
`if` after its first parenthesis: from there on a mismatch is a failure. An
`else` belongs to the nearest `if` before it.

As with expressions, the parser for statements inside a statement is a
parameter, and the number of tokens bounds how deep statements are nested.
-/
namespace ScriptFront.Parser

/-- Reads a type: a name, and two brackets if they follow. -/
def typeName : Parser TypeName := do
  let token ← accept .identifier
  let brackets? ← optional <| attempt (← production) do
    let _ ← accept .openBracket
    accept .closeBracket
  return ⟨token, brackets?.isSome, none⟩

def ident : Parser Ident := do
  let token ← accept .identifier
  return ⟨token, none, none⟩

/-- Reads a comma and an argument. -/
def nextArgument : Parser Expr :=
  attempt "argument list" do
    let _ ← accept .comma
    expression?

/-- Reads arguments and the commas between them. No argument is a match too. -/
def argumentList : Parser (List Expr) := do
  let args? ← optional <| attempt "argument list" do
    let first ← expression?
    let rest ← many nextArgument
    return first :: rest
  return args?.getD []

/-- Reads a block with statements of the given kind: the statements and the
opening brace. -/
def blockOf (statement : Parser Stmt) : Parser (List Stmt × Token) :=
  attempt "statement block" do
    let openBrace ← accept .openCurly
    let statements ← many statement
    let _ ← accept .closeCurly
    return (statements, openBrace)

def initializer : Parser Expr :=
  attempt "variable declaration" do
    let _ ← accept .assignment
    expression?

/-- Reads what follows a finished `if` statement without `else`: the branch of
an `else`, if there is one. -/
def elseBranch? (statement : Parser Stmt) : Parser (Option Stmt) := do
  if (← currentKind) = .elseWord then
    let branch ← committed <| attempt "if-else statement" do
      let _ ← accept .elseWord
      committed statement
    return some branch
  else return none

/-- Reads a statement of one form, with the given parser for the statements in
it. -/
def statementOf (statement : Parser Stmt) : StmtForm → Parser Stmt
  | .whileLoop => attempt "while statement" do
    let token ← accept .whileWord
    committed do
      let _ ← accept .openParen
      let condition ← expression?
      let _ ← accept .closeParen
      let body ← statement
      return .whileLoop condition body token
  | .call => attempt "call statement" do
    let callee ← ident
    let openParen ← accept .openParen
    let args ← argumentList
    let _ ← accept .closeParen
    let _ ← accept .semicolon
    return .call callee args openParen
  | .breakLoop => attempt "break statement" do
    let token ← accept .breakWord
    let _ ← accept .semicolon
    return .breakLoop token
  | .emptyReturn => attempt "return statement" do
    let token ← accept .returnWord
    let _ ← accept .semicolon
    return .returnValue none token
  | .valueReturn => attempt "return statement" do
    let token ← accept .returnWord
    let value ← expression?
    let _ ← accept .semicolon
    return .returnValue (some value) token
  | .varDecl => attempt "variable declaration" do
    let type ← typeName
    let name ← accept .identifier
    let initializer? ← optional initializer
    let _ ← accept .semicolon
    return .varDecl type name initializer? none
  | .assign => attempt "assignment" do
    let target ← ident
    let _ ← accept .assignment
    let value ← expression?
    let _ ← accept .semicolon
    return .assign target value
  | .ifThen => do
    if (← currentKind) = .ifWord then
      attempt "if statement" do
        let token ← accept .ifWord
        let _ ← accept .openParen
        committed do
          let condition ← expression?
          let _ ← accept .closeParen
          let thenBranch ← statement
          match ← elseBranch? statement with
          | none => return .ifThen condition thenBranch token
          | some other => return .ifThenElse condition thenBranch other token
    else noMatch
  | .block => do
    let (statements, openBrace) ← blockOf statement
    return .block statements openBrace
  | .empty => attempt "empty statement" do
    let token ← accept .semicolon
    return .empty token

/-- Reads a statement in which statements are nested less than `n` deep. -/
def statementWithin : Nat → Parser Stmt
  | 0 => stop
  | n + 1 => do
    firstOf ((← grammar).forms.map (statementOf (statementWithin n)))

def statement : Parser Stmt :=
  bounded statementWithin

/-- Reads a block: its statements and its opening brace. -/
def block : Parser (List Stmt × Token) :=
  blockOf statement

end Parser

/-- The statement at the front of a list of tokens. -/
def Stmt.ofTokens (tokens : List Token) : Except Diagnostic Stmt :=
  Parser.statement.result (.ofTokens tokens "program")

end ScriptFront
