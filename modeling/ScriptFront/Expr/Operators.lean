import ScriptFront.Token.Basic

/-!
# Operator tables

What a token may do in an expression depends on its kind alone: it may open an
operand, and it may continue an expression to its left. A token that continues
binds with a power, and the operand to its right takes only what binds more
tightly. The standard table can be extended by further entries; the latest
entry for a kind counts.
-/
namespace ScriptFront

/-- How tightly a token binds to the expression on its left, weakest first. A
token with the lowest power ends every expression. -/
inductive BindingPower where
  | lowest | relational | additive | multiplicative | primary
deriving DecidableEq, Repr

namespace BindingPower

def level : BindingPower → Nat
  | lowest => 0
  | relational => 1
  | additive => 2
  | multiplicative => 3
  | primary => 4

def name : BindingPower → String
  | lowest => "Default"
  | relational => "Relational"
  | additive => "Additive"
  | multiplicative => "Multiplicative"
  | primary => "Primary"

def all : List BindingPower := [lowest, relational, additive, multiplicative, primary]

def ofName? (s : String) : Option BindingPower :=
  all.find? fun p => p.name == s

end BindingPower

/-- How a token opens an operand. -/
inductive Opening where
  /-- The token is a literal or a name. -/
  | primary
  /-- The token is an operator in front of its operand. -/
  | signed
  /-- The token is a parenthesis around an expression. -/
  | grouping
deriving DecidableEq, Repr

/-- How a token continues the expression on its left. -/
inductive Continuation where
  | binary | call | subscript | member
deriving DecidableEq, Repr

/-- What the kinds of token may do in an expression. -/
structure OperatorTable where
  power? : TokenKind → Option BindingPower
  opening? : TokenKind → Option Opening
  continuation? : TokenKind → Option Continuation

namespace OperatorTable

/-- The power with which a kind binds to the left. -/
def power (t : OperatorTable) (kind : TokenKind) : BindingPower :=
  (t.power? kind).getD .lowest

/-- A table with another opening for a kind. Its power is not changed. -/
def withOpening (t : OperatorTable) (kind : TokenKind) (opening : Opening) : OperatorTable :=
  { t with opening? := fun k => if k = kind then some opening else t.opening? k }

/-- A table with another continuation for a kind, and its power. -/
def withContinuation (t : OperatorTable) (kind : TokenKind) (power : BindingPower)
    (continuation : Continuation) : OperatorTable :=
  { t with
    power? := fun k => if k = kind then some power else t.power? k
    continuation? := fun k => if k = kind then some continuation else t.continuation? k }

@[simp] theorem opening?_withOpening (t : OperatorTable) (kind k : TokenKind)
    (opening : Opening) :
    (t.withOpening kind opening).opening? k =
      if k = kind then some opening else t.opening? k := rfl

@[simp] theorem power_withOpening (t : OperatorTable) (kind k : TokenKind)
    (opening : Opening) : (t.withOpening kind opening).power k = t.power k := rfl

@[simp] theorem continuation?_withContinuation (t : OperatorTable) (kind k : TokenKind)
    (power : BindingPower) (continuation : Continuation) :
    (t.withContinuation kind power continuation).continuation? k =
      if k = kind then some continuation else t.continuation? k := rfl

/-- The powers of the language. Conjunction binds like a product, and
disjunction like a sum. -/
def standardPower? : TokenKind → Option BindingPower
  | .less | .lessEquals | .greater | .greaterEquals | .equals | .notEquals => some .relational
  | .plus | .dash | .or | .xor => some .additive
  | .and | .star | .slash | .percent => some .multiplicative
  | .openParen | .openBracket | .dot => some .primary
  | _ => none

/-- The operands of the language: literals, names, operators in front of an
operand, and parentheses. -/
def standardOpening? : TokenKind → Option Opening
  | .int | .float | .bool | .string | .identifier => some .primary
  | .plus | .dash | .not => some .signed
  | .openParen => some .grouping
  | _ => none

/-- The continuations of the language. -/
def standardContinuation? : TokenKind → Option Continuation
  | .less | .lessEquals | .greater | .greaterEquals | .equals | .notEquals
  | .plus | .dash | .or | .xor | .and | .star | .slash | .percent => some .binary
  | .openParen => some .call
  | .openBracket => some .subscript
  | .dot => some .member
  | _ => none

/-- Exactly the kinds with a power continue an expression. -/
theorem isSome_standardContinuation? (k : TokenKind) :
    (standardContinuation? k).isSome = (standardPower? k).isSome := by
  cases k <;> rfl

/-- The table of the language. -/
def standard : OperatorTable :=
  ⟨standardPower?, standardOpening?, standardContinuation?⟩

end OperatorTable

end ScriptFront
