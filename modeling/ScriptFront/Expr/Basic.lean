import ScriptFront.Numeral.Binary64
import ScriptFront.Token.Basic

/-!
# Expressions

The tree of an expression. Parentheses and a plus sign in front of an operand
leave no node. Every node keeps the token that names it, and has room for the
type that checking finds; names also have room for the symbol they stand for.
-/
namespace ScriptFront

structure TypeId where
  index : Nat
deriving DecidableEq, Repr

structure SymbolId where
  index : Nat
deriving DecidableEq, Repr

/-- A name in use. -/
structure Ident where
  token : Token
  type? : Option TypeId := none
  symbol? : Option SymbolId := none
deriving DecidableEq, Repr

def Ident.name (i : Ident) : String := i.token.text

inductive Literal where
  | int (value : Int)
  | float (value : Numeral.Binary64)
  | bool (value : Bool)
  | string (value : String)
deriving DecidableEq, Repr

inductive UnaryOp where
  | neg | not
deriving DecidableEq, Repr

/-- Operators with two operands. The index of an array and the member of a
value count among them. -/
inductive BinaryOp where
  | add | sub | mul | div | mod
  | less | greater | lessEquals | greaterEquals
  | equal | unequal
  | and | or | xor
  | subscript | memberAccess
deriving DecidableEq, Repr

namespace UnaryOp

/-- The operator's name in a displayed tree. -/
def name : UnaryOp → String
  | neg => "Neg"
  | not => "Not"

/-- The operator as a message names it. -/
def symbol : UnaryOp → String
  | neg => "-"
  | not => "!"

end UnaryOp

namespace BinaryOp

def name : BinaryOp → String
  | add => "Add"
  | sub => "Sub"
  | mul => "Mul"
  | div => "Div"
  | mod => "Mod"
  | less => "Less"
  | greater => "Greater"
  | lessEquals => "LessEquals"
  | greaterEquals => "GreaterEquals"
  | equal => "Equal"
  | unequal => "Unequal"
  | and => "And"
  | or => "Or"
  | xor => "Xor"
  | subscript => "Subscript"
  | memberAccess => "MemberAccess"

def symbol : BinaryOp → String
  | add => "+"
  | sub => "-"
  | mul => "*"
  | div => "/"
  | mod => "%"
  | less => "<"
  | greater => ">"
  | lessEquals => "<="
  | greaterEquals => ">="
  | equal => "=="
  | unequal => "!="
  | and => "&&"
  | or => "||"
  | xor => "^"
  | subscript => "[]"
  | memberAccess => "."

/-- The operator that a token between two operands stands for. -/
def ofKind? : TokenKind → Option BinaryOp
  | .plus => some add
  | .dash => some sub
  | .star => some mul
  | .slash => some div
  | .percent => some mod
  | .less => some less
  | .greater => some greater
  | .lessEquals => some lessEquals
  | .greaterEquals => some greaterEquals
  | .equals => some equal
  | .notEquals => some unequal
  | .and => some and
  | .or => some or
  | .xor => some xor
  | _ => none

end BinaryOp

/-- Expressions. A call keeps the parenthesis that opens its arguments. -/
inductive Expr where
  | literal (value : Literal) (token : Token) (type? : Option TypeId)
  | ident (ident : Ident)
  | unary (op : UnaryOp) (operand : Expr) (token : Token) (type? : Option TypeId)
  | binary (op : BinaryOp) (left right : Expr) (token : Token) (type? : Option TypeId)
  | call (callee : Ident) (args : List Expr) (openParen : Token) (type? : Option TypeId)
deriving Repr

namespace Expr

/-- The token that names the node: a literal, a name, an operator, or the name
of the called function. -/
def token : Expr → Token
  | literal _ token _ => token
  | ident i => i.token
  | unary _ _ token _ => token
  | binary _ _ _ token _ => token
  | call callee _ _ _ => callee.token

/-- The type that was found for the node. -/
def type? : Expr → Option TypeId
  | literal _ _ type? => type?
  | ident i => i.type?
  | unary _ _ _ type? => type?
  | binary _ _ _ _ type? => type?
  | call _ _ _ type? => type?

/-- The expression with another type at its root. -/
def withType (type? : Option TypeId) : Expr → Expr
  | literal value token _ => literal value token type?
  | ident i => ident { i with type? }
  | unary op operand token _ => unary op operand token type?
  | binary op left right token _ => binary op left right token type?
  | call callee args openParen _ => call callee args openParen type?

@[simp] theorem type?_withType (t : Option TypeId) (e : Expr) : (e.withType t).type? = t := by
  cases e <;> rfl

@[simp] theorem token_withType (t : Option TypeId) (e : Expr) :
    (e.withType t).token = e.token := by
  cases e <;> rfl

/-- The text of a literal. A float shows its spelling, and a string its value
between quotes. -/
def literalText (value : Literal) (token : Token) : String :=
  match value with
  | .int n => toString n
  | .float _ => token.text
  | .bool b => toString b
  | .string s => "\"" ++ s ++ "\""

/-- The tree in one line, operators written as functions. -/
def display : Expr → String
  | literal value token _ => literalText value token
  | ident i => i.name
  | unary op operand _ _ => op.name ++ "(" ++ operand.display ++ ")"
  | binary op left right _ _ =>
      op.name ++ "(" ++ left.display ++ ", " ++ right.display ++ ")"
  | call callee args _ _ =>
      "Call(" ++ callee.name ++ ", [" ++ ", ".intercalate (displays args) ++ "])"
where
  displays : List Expr → List String
    | [] => []
    | e :: es => e.display :: displays es

end Expr

end ScriptFront
