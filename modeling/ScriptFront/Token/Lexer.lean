import ScriptFront.Diagnostic.Basic
import ScriptFront.Numeral.Integer
import ScriptFront.Source.Scanner
import ScriptFront.Text.Basic
import ScriptFront.Token.Basic

/-!
# From a source text to its tokens

Each pattern says how many characters it takes from the front of a text. The
patterns form a table that is searched from the front, so a pattern stands
before every pattern that takes less of the same text: comments before the
slash, a closed string before a lone quote, long operators before their
beginnings.

The text is cut into lexemes from the front. Blanks and comments leave nothing,
every other lexeme leaves one token, and a mark for the end of the input closes
the list. The first fault ends the reading.
-/
namespace ScriptFront

/-- The forms of lexeme. -/
inductive Pattern where
  | blanks
  | lineComment
  | blockComment
  | word
  | number
  | quotedText
  /-- A quote that begins no closed string. -/
  | openQuote
  /-- An operator or a mark with one spelling. -/
  | mark (spelling : String) (kind : TokenKind)
deriving DecidableEq, Repr

namespace Pattern

/-- An ASCII letter, an underscore or a dollar sign. -/
def isWordStart (c : Char) : Bool :=
  c.isAlpha || c == '_' || c == '$'

/-- A character that continues a word. -/
def isWordPart (c : Char) : Bool :=
  isWordStart c || c.isDigit

/-- How much of a text belongs to a block comment whose opening mark was read:
up to the first closing mark, or everything. -/
def blockLength : List Char → Nat
  | [] => 0
  | '*' :: '/' :: _ => 2
  | _ :: cs => blockLength cs + 1

/-- How much of a text belongs to a string whose opening quote was read, the
closing quote included. A backslash protects the next character, but it cannot
stand at the end of a line. -/
def stringLength? : List Char → Option Nat
  | [] => none
  | '"' :: _ => some 1
  | ['\\'] => none
  | '\\' :: c :: cs => if c = '\n' then none else (stringLength? cs).map (· + 2)
  | _ :: cs => (stringLength? cs).map (· + 1)

/-- The length of a fraction, point included, if one follows. -/
def fractionLength : List Char → Nat
  | '.' :: cs =>
    match (cs.takeWhile Char.isDigit).length with
    | 0 => 0
    | n + 1 => n + 2
  | _ => 0

/-- The length of a run of characters of one class, if it is not empty. -/
def runLength? (p : Char → Bool) (cs : List Char) : Option Nat :=
  match (cs.takeWhile p).length with
  | 0 => none
  | n + 1 => some (n + 1)

/-- How many characters the pattern takes from the front of a text. -/
def length? : Pattern → List Char → Option Nat
  | blanks, cs => runLength? Text.isWhiteSpace cs
  | lineComment, '/' :: '/' :: cs => some (2 + (cs.takeWhile (· ≠ '\n')).length)
  | blockComment, '/' :: '*' :: cs => some (2 + blockLength cs)
  | word, c :: cs => if isWordStart c then some (1 + (cs.takeWhile isWordPart).length) else none
  | number, cs =>
    (runLength? Char.isDigit cs).map fun n => n + fractionLength (cs.drop n)
  | quotedText, '"' :: cs => (stringLength? cs).map (1 + ·)
  | openQuote, '"' :: _ => some 1
  | mark spelling _, cs =>
    if spelling.toList.isPrefixOf cs then some spelling.length else none
  | _, _ => none

/-- The patterns in the order in which they are tried. -/
def table : List Pattern :=
  [blanks, lineComment, blockComment, word, number, quotedText, openQuote,
   mark "(" .openParen, mark ")" .closeParen, mark "\x7b" .openCurly,
   mark "\x7d" .closeCurly, mark "[" .openBracket, mark "]" .closeBracket,
   mark "," .comma, mark ";" .semicolon, mark "." .dot,
   mark "&&" .and, mark "||" .or, mark "^" .xor,
   mark "==" .equals, mark "!=" .notEquals, mark "=" .assignment,
   mark "<=" .lessEquals, mark "<" .less, mark ">=" .greaterEquals, mark ">" .greater,
   mark "+" .plus, mark "-" .dash, mark "*" .star, mark "/" .slash, mark "%" .percent,
   mark "!" .not, mark "~" .not]

/-- The first pattern of the table that takes something, and how much. -/
def first? (cs : List Char) : Option (Pattern × Nat) :=
  table.findSome? fun p => (p.length? cs).map (p, ·)

/-- The value of the text between the quotes of a string literal. A backslash
before a character that it has no meaning for stands for itself. -/
def unescape : List Char → List Char
  | [] => []
  | '\\' :: 'n' :: cs => '\n' :: unescape cs
  | '\\' :: 't' :: cs => '\t' :: unescape cs
  | '\\' :: 'r' :: cs => '\r' :: unescape cs
  | '\\' :: '\\' :: cs => '\\' :: unescape cs
  | '\\' :: '"' :: cs => '"' :: unescape cs
  | '\\' :: '0' :: cs => '\x00' :: unescape cs
  | c :: cs => c :: unescape cs

/-- The token of a number. A name may not follow directly, and an integer must
be in the signed 64-bit range. -/
def numberToken (lexeme following : List Char) (place : Position) : Except Diagnostic Token :=
  match following.head?.filter isWordStart with
  | some suffix => .error ⟨.invalidNumberSuffix suffix, place.afterAll lexeme⟩
  | none =>
    let text := String.ofList lexeme
    if lexeme.contains '.' then .ok ⟨.float, text, place⟩
    else if Numeral.decimal lexeme < Numeral.limit then .ok ⟨.int, text, place⟩
    else .error ⟨.numberParseError text, place⟩

/-- What a lexeme of this form at a place contributes: a token, or nothing. The
text `following` comes after the lexeme. -/
def read (p : Pattern) (lexeme following : List Char) (place : Position) :
    Except Diagnostic (Option Token) :=
  match p with
  | blanks | lineComment | blockComment => .ok none
  | word =>
    let text := String.ofList lexeme
    .ok (some ⟨TokenKind.ofWord text, text, place⟩)
  | number => (numberToken lexeme following place).map some
  | quotedText => .ok (some ⟨.string, String.ofList (unescape lexeme.tail.dropLast), place⟩)
  | openQuote => .error ⟨.unterminatedString, place⟩
  | mark spelling kind => .ok (some ⟨kind, spelling, place⟩)

end Pattern

namespace Token

open Source (Scanner)

/-- The tokens of the text that a scanner has still to read. -/
def scan : Scanner → Except Diagnostic (List Token)
  | ⟨[], place⟩ => .ok [endOfInput place]
  | ⟨c :: cs, place⟩ =>
    match Pattern.first? (c :: cs) with
    | some (p, n + 1) => do
      let found ← p.read (c :: cs.take n) (cs.drop n) place
      let tokens ← scan (Scanner.advance ⟨c :: cs, place⟩ (n + 1))
      return found.toList ++ tokens
    | _ => .error ⟨.unrecognisedToken (String.singleton c), place⟩
termination_by s => s.rest.length
decreasing_by
  simp only [Scanner.advance, List.drop_succ_cons, List.length_drop, List.length_cons]
  omega

def ofSource (source : String) : Except Diagnostic (List Token) :=
  scan (Scanner.ofSource source)

end Token

end ScriptFront
