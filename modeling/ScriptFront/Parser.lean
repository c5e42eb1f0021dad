import ScriptFront.Diagnostic.Basic
import ScriptFront.Expr.Operators
import ScriptFront.TokenStream

/-!
# Parsers

A parser reads tokens and ends in one of three ways: it matches, it does not
match, or it fails. Only the first lets the following steps run. An alternative
that does not match gives way to the next alternative, whereas a failure ends
the parse. An attempt puts the cursor back when its alternative does not match.

The name of the production that is being matched is kept beside the cursor, and
is entered into the record of the furthest read. A parse that comes to nothing
is reported there.
-/
namespace ScriptFront

/-- The ways to write a statement. A return with a value and one without are
two ways. -/
inductive StmtForm where
  | whileLoop
  | call
  | breakLoop
  | emptyReturn
  | valueReturn
  | varDecl
  | assign
  | ifThen
  | block
  | empty
deriving DecidableEq, Repr

/-- The forms in the order in which they are tried. -/
def StmtForm.order : List StmtForm :=
  [.whileLoop, .call, .breakLoop, .emptyReturn, .valueReturn, .varDecl, .assign, .ifThen,
   .block, .empty]

theorem StmtForm.mem_order (f : StmtForm) : f ∈ order := by
  cases f <;> decide

structure Grammar where
  operators : OperatorTable
  forms : List StmtForm

/-- The tables of the language. -/
def Grammar.standard : Grammar := ⟨.standard, StmtForm.order⟩

/-- How a parser ends. -/
inductive Outcome (α : Type) where
  | matched (value : α)
  | noMatch
  | failed (why : Diagnostic)
deriving DecidableEq, Repr

structure ParserState where
  cursor : TokenCursor
  production : String
  grammar : Grammar

def Parser (α : Type) : Type := ParserState → Outcome α × ParserState

namespace ParserState

/-- In front of a list of tokens, with the tables of the language. -/
def ofTokens (tokens : List Token) (production : String) : ParserState :=
  ⟨.ofStream (.ofList tokens) "program", production, .standard⟩

/-- Begins an alternative of a production. -/
def enter (s : ParserState) (production : String) : ParserState :=
  { s with cursor := s.cursor.mark, production }

/-- Ends an alternative and stays where it ended. -/
def keep (s : ParserState) (outer : String) : ParserState :=
  { s with cursor := s.cursor.discard, production := outer }

/-- Ends an alternative and goes back to where it began. -/
def retreat (s : ParserState) (outer : String) : ParserState :=
  { s with cursor := s.cursor.reset, production := outer }

/-- The diagnostic for a parse that came to nothing, at the furthest read. -/
def syntaxError (s : ParserState) : Diagnostic :=
  let read := s.cursor.furthestRead
  let fault : Fault :=
    if read.token.kind = .endOfInput then .unexpectedEndOfFile read.production
    else
      match read.previous? with
      | some previous =>
          .unexpectedTokenAfter read.token.display previous.display read.production
      | none => .unexpectedToken read.token.display read.production
  ⟨fault, read.token.position⟩

end ParserState

/-- A token in a place where a certain thing is required. -/
def Diagnostic.unexpected (token : Token) (message : String) : Diagnostic :=
  ⟨.unexpectedTokenDetailed token.display message, token.position⟩

namespace Parser

/-- Runs `p` and then, if it matches, what follows. -/
protected def bind (p : Parser α) (f : α → Parser β) : Parser β := fun s =>
  match p s with
  | (.matched a, s') => f a s'
  | (.noMatch, s') => (.noMatch, s')
  | (.failed d, s') => (.failed d, s')

/-- Matches without reading. -/
protected def pure (a : α) : Parser α := fun s => (.matched a, s)

instance : Monad Parser where
  pure := Parser.pure
  bind := Parser.bind

def noMatch : Parser α := fun s => (.noMatch, s)

def fail (why : Diagnostic) : Parser α := fun s => (.failed why, s)

/-- Fails at the furthest read. -/
def stop : Parser α := fun s => (.failed s.syntaxError, s)

/-- Fails with the error of a computation that has one. -/
def ofExcept : Except Diagnostic α → Parser α
  | .ok a => pure a
  | .error d => fail d

def current : Parser Token := fun s => (.matched s.cursor.current, s)

def currentKind : Parser TokenKind := fun s => (.matched s.cursor.current.kind, s)

def production : Parser String := fun s => (.matched s.production, s)

def grammar : Parser Grammar := fun s => (.matched s.grammar, s)

def advance : Parser Token := fun s =>
  let (token, cursor) := s.cursor.next s.production
  (.matched token, { s with cursor })

/-- Reads a token, and matches if it is of the kind. -/
def accept (kind : TokenKind) : Parser Token := do
  let token ← advance
  if token.kind = kind then return token else noMatch

/-- Reads a token, and fails if it is not of the kind. -/
def expect (kind : TokenKind) : Parser Token := do
  let token ← advance
  if token.kind = kind then return token
  else fail (.unexpected token ("expected " ++ kind.name))

/-- Runs one alternative of a production. -/
def attempt (production : String) (p : Parser α) : Parser α := fun s =>
  match p (s.enter production) with
  | (.noMatch, s') => (.noMatch, s'.retreat s.production)
  | (outcome, s') => (outcome, s'.keep s.production)

/-- Runs one alternative of a production whose failures do not count: what
does not match is taken back. -/
def tentative (production : String) (p : Parser α) : Parser α := fun s =>
  match p (s.enter production) with
  | (.matched a, s') => (.matched a, s'.keep s.production)
  | (_, s') => (.noMatch, s'.retreat s.production)

/-- Runs a parser that has to match from here on. -/
def committed (p : Parser α) : Parser α := fun s =>
  match p s with
  | (.noMatch, s') => (.failed s'.syntaxError, s')
  | r => r

/-- Runs a parser that may fail to match. -/
def optional (p : Parser α) : Parser (Option α) := fun s =>
  match p s with
  | (.matched a, s') => (.matched (some a), s')
  | (.noMatch, s') => (.matched none, s')
  | (.failed d, s') => (.failed d, s')

/-- Runs `p` and, if it does not match, `q` where `p` ended. -/
def orElse (p q : Parser α) : Parser α := fun s =>
  match p s with
  | (.noMatch, s') => q s'
  | r => r

/-- Runs parsers in order until one of them matches or fails. -/
def firstOf : List (Parser α) → Parser α
  | [] => noMatch
  | p :: ps => p.orElse (firstOf ps)

/-- Runs a parser with a bound that no repetition can exceed in which each
round reads a token: more than the number of tokens that are left. -/
def bounded (p : Nat → Parser α) : Parser α := fun s =>
  p (s.cursor.remaining + 1) s

/-- Matches `p` as often as it matches, at most the given number of times. -/
def manyUpTo (p : Parser α) : Nat → Parser (List α)
  | 0 => pure []
  | n + 1 => do
    match ← optional p with
    | none => return []
    | some a =>
      let rest ← manyUpTo p n
      return a :: rest

def many (p : Parser α) : Parser (List α) :=
  bounded (manyUpTo p)

/-- The result of a parser that has to match. -/
def result (p : Parser α) (s : ParserState) : Except Diagnostic α :=
  match p s with
  | (.matched a, _) => .ok a
  | (.noMatch, s') => .error s'.syntaxError
  | (.failed d, _) => .error d

end Parser

end ScriptFront
