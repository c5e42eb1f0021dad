import ScriptFront.Expr.Basic
import ScriptFront.Numeral.Integer
import ScriptFront.Parser

/-!
# Parsing expressions

An expression is an operand and what continues it. The parser is driven by the
operator table: the kind of the first token decides how the operand opens, and
as long as the next token binds more tightly than the expression demands, it
continues the tree on the left.

The parser for expressions inside an expression is a parameter, `sub`. Each use
of it comes after a token was read, so nesting is bounded by the number of
tokens, and that bound drives the recursion.
-/
namespace ScriptFront

namespace Expr

/-- The expression that a single token stands for. -/
def ofToken (t : Token) : Except Diagnostic Expr :=
  match t.kind with
  | .int =>
    match Numeral.integer? t.text.toList with
    | some n => .ok (literal (.int n) t none)
    | none => .error ⟨.numberParseError t.text, t.position⟩
  | .float =>
    match Numeral.Binary64.ofText? t.text.toList with
    | some x => .ok (literal (.float x) t none)
    | none => .error ⟨.numberParseError t.text, t.position⟩
  | .bool => .ok (literal (.bool (t.text == "true")) t none)
  | .string => .ok (literal (.string t.text) t none)
  | .identifier => .ok (ident ⟨t, none, none⟩)
  | _ => .error (.unexpected t "expected a literal or a name")

/-- The expression of an operator in front of an operand. A plus sign leaves no
node, and any operator but plus and minus negates. -/
def ofSign (sign : Token) (operand : Expr) : Expr :=
  match sign.kind with
  | .plus => operand
  | .dash => unary .neg operand sign none
  | _ => unary .not operand sign none

end Expr

/-- Reads an operand. -/
def Opening.parse (sub : BindingPower → Parser Expr) : Opening → Parser Expr
  | primary => do
    let token ← Parser.advance
    Parser.ofExcept (Expr.ofToken token)
  | signed => do
    let sign ← Parser.advance
    let operand ← sub .primary
    return Expr.ofSign sign operand
  | grouping => do
    let _ ← Parser.advance
    let inner ← sub .lowest
    let _ ← Parser.expect .closeParen
    return inner

namespace Continuation

/-- Reads at least one argument; the commas between them are read too. -/
def arguments (sub : BindingPower → Parser Expr) : Nat → Parser (List Expr)
  | 0 => Parser.stop
  | n + 1 => do
    let first ← sub .lowest
    if (← Parser.currentKind) = .comma then
      let _ ← Parser.advance
      let rest ← arguments sub n
      return first :: rest
    else return [first]

/-- Reads what follows the opening parenthesis of a call, the closing one
included. -/
def argumentsAndClose (sub : BindingPower → Parser Expr) : Parser (List Expr) := do
  if (← Parser.currentKind) = .closeParen then
    let _ ← Parser.advance
    return []
  else
    let args ← Parser.bounded (arguments sub)
    let _ ← Parser.expect .closeParen
    return args

/-- Continues the expression on the left with a token that binds with the given
power. Only a name can be called. -/
def parse (sub : BindingPower → Parser Expr) (left : Expr) (power : BindingPower) :
    Continuation → Parser Expr
  | binary => do
    let operator ← Parser.advance
    match BinaryOp.ofKind? operator.kind with
    | none => Parser.fail (.unexpected operator "expected an operator")
    | some op =>
      let right ← sub power
      return .binary op left right operator none
  | call => do
    let openParen ← Parser.advance
    match left with
    | .ident callee =>
      let args ← argumentsAndClose sub
      return .call callee args openParen none
    | _ => Parser.fail (.unexpected left.token "only a name can be called")
  | subscript => do
    let openBracket ← Parser.advance
    let index ← sub .lowest
    let _ ← Parser.expect .closeBracket
    return .binary .subscript left index openBracket none
  | member => do
    let dot ← Parser.advance
    if (← Parser.currentKind) = .identifier then
      let name ← sub .primary
      return .binary .memberAccess left name dot none
    else
      let token ← Parser.advance
      Parser.fail (.unexpected token "expected a member name after '.'")

end Continuation

namespace Parser

/-- How the next token continues an expression that takes only what binds more
tightly than `power`, and with which power. -/
def continuation? (power : BindingPower) : Parser (Option (Continuation × BindingPower)) := do
  let kind ← currentKind
  let table := (← grammar).operators
  if (table.power kind).level ≤ power.level then return none
  else return (table.continuation? kind).map (·, table.power kind)

/-- Continues an expression as long as the tokens bind tightly enough. -/
def climb (sub : BindingPower → Parser Expr) (power : BindingPower) :
    Nat → Expr → Parser Expr
  | 0, _ => stop
  | n + 1, left => do
    match ← continuation? power with
    | none => return left
    | some (continuation, tighter) =>
      let longer ← continuation.parse sub left tighter
      climb sub power n longer

def operand (sub : BindingPower → Parser Expr) : Parser Expr := do
  let kind ← currentKind
  match (← grammar).operators.opening? kind with
  | some opening => opening.parse sub
  | none =>
    let token ← advance
    fail (.unexpected token "expected an expression")

/-- Reads an expression in which expressions are nested less than `n` deep. -/
def expressionWithin : Nat → BindingPower → Parser Expr
  | 0, _ => stop
  | n + 1, power => do
    let left ← operand (expressionWithin n)
    bounded fun rounds => climb (expressionWithin n) power rounds left

/-- Reads an expression of tokens that bind more tightly than the power. -/
def expression (power : BindingPower) : Parser Expr :=
  bounded fun depth => expressionWithin depth power

/-- Reads an expression where there may be none: any failure inside of it is
taken back. -/
def expression? : Parser Expr :=
  tentative "expression" (expression .lowest)

/-- Reads an expression and then the end of the input. -/
def wholeExpression : Parser Expr := do
  let e ← expression .lowest
  if (← currentKind) = .endOfInput then return e
  else
    let _ ← advance
    stop

end Parser

def Expr.ofTokens (tokens : List Token) : Except Diagnostic Expr :=
  Parser.wholeExpression.result (.ofTokens tokens "expression")

end ScriptFront
