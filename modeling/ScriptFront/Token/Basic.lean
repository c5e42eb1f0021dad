import ScriptFront.Source.Position
import ScriptFront.Text.Basic

/-!
# Tokens

A token is a kind, a text and a position. The text is the spelling in the
source, except that a string literal carries its decoded value.
-/
namespace ScriptFront

/-- The kinds of token. The kinds that end in `Word` are reserved words. -/
inductive TokenKind where
  | endOfInput
  | int | float | bool | string | identifier
  | openBracket | closeBracket | openCurly | closeCurly | openParen | closeParen
  | assignment | equals | not | notEquals
  | less | lessEquals | greater | greaterEquals
  | or | and | xor
  | dot | semicolon | comma
  | plus | dash | slash | star | percent
  | varWord | ifWord | thenWord | elseWord | whileWord | doWord | letWord | breakWord
  | returnWord | classWord | methodWord | functionWord | constructorWord | staticWord
  | fieldWord | nullWord | thisWord
deriving DecidableEq, Repr, Inhabited

namespace TokenKind

def name : TokenKind → String
  | endOfInput => "EOF"
  | int => "Int"
  | float => "Float"
  | bool => "Bool"
  | string => "String"
  | identifier => "Identifier"
  | openBracket => "OpenBracket"
  | closeBracket => "CloseBracket"
  | openCurly => "OpenCurly"
  | closeCurly => "CloseCurly"
  | openParen => "OpenParen"
  | closeParen => "CloseParen"
  | assignment => "Assignment"
  | equals => "Equals"
  | not => "Not"
  | notEquals => "NotEquals"
  | less => "Less"
  | lessEquals => "LessEquals"
  | greater => "Greater"
  | greaterEquals => "GreaterEquals"
  | or => "Or"
  | and => "And"
  | xor => "Xor"
  | dot => "Dot"
  | semicolon => "Semicolon"
  | comma => "Comma"
  | plus => "Plus"
  | dash => "Dash"
  | slash => "Slash"
  | star => "Star"
  | percent => "Percent"
  | varWord => "Var"
  | ifWord => "If"
  | thenWord => "Then"
  | elseWord => "Else"
  | whileWord => "While"
  | doWord => "Do"
  | letWord => "Let"
  | breakWord => "Break"
  | returnWord => "Return"
  | classWord => "Class"
  | methodWord => "Method"
  | functionWord => "Function"
  | constructorWord => "Constructor"
  | staticWord => "Static"
  | fieldWord => "Field"
  | nullWord => "Null"
  | thisWord => "This"

def all : List TokenKind :=
  [endOfInput, int, float, bool, string, identifier, openBracket, closeBracket, openCurly,
   closeCurly, openParen, closeParen, assignment, equals, not, notEquals, less, lessEquals,
   greater, greaterEquals, or, and, xor, dot, semicolon, comma, plus, dash, slash, star,
   percent, varWord, ifWord, thenWord, elseWord, whileWord, doWord, letWord, breakWord,
   returnWord, classWord, methodWord, functionWord, constructorWord, staticWord, fieldWord,
   nullWord, thisWord]

theorem mem_all (k : TokenKind) : k ∈ all := by
  cases k <;> decide

def ofName? (s : String) : Option TokenKind :=
  all.find? fun k => k.name == s

/-- The reserved words, and the two truth values. -/
def reserved : List (String × TokenKind) :=
  [("var", varWord), ("if", ifWord), ("then", thenWord), ("else", elseWord),
   ("while", whileWord), ("do", doWord), ("let", letWord), ("break", breakWord),
   ("return", returnWord), ("class", classWord), ("method", methodWord),
   ("function", functionWord), ("constructor", constructorWord), ("static", staticWord),
   ("field", fieldWord), ("null", nullWord), ("this", thisWord),
   ("true", bool), ("false", bool)]

/-- A word that is not reserved is an identifier. -/
def ofWord (s : String) : TokenKind :=
  (reserved.lookup s).getD identifier

end TokenKind

structure Token where
  kind : TokenKind
  text : String
  position : Position
deriving DecidableEq, Repr, Inhabited

namespace Token

/-- The mark behind the last token of a text. -/
def endOfInput (position : Position) : Token :=
  ⟨.endOfInput, "EOF", position⟩

/-- The token as a message shows it. A string literal is put between quotes
again, without escapes. -/
def display (t : Token) : String :=
  if t.kind = .string then "\"" ++ t.text ++ "\"" else t.text

/-- The token's line in a listing: the kind, at most twelve characters of the
token, and the position, in columns. -/
def listing (t : Token) : String :=
  Text.padRight 16 ' ' t.kind.name ++
    Text.padRight 14 ' ' (Text.truncated 12 t.display) ++ t.position.text

end Token

end ScriptFront
