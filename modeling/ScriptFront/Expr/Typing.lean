import ScriptFront.Diagnostic.Reported
import ScriptFront.SymbolTable.Basic
import ScriptFront.TypeTable

/-!
# Typing expressions

The type of an expression follows from the types of its parts. A fault is
reported where it is found, and then the expression has no type; whatever
contains it is silent about it. The types that are found are written into the
tree.

Names must have been bound before. The variable that is being initialized, if
there is one, must not occur.
-/
namespace ScriptFront

/-- A part of a tree and the type that was found for it. -/
abbrev Typed (α : Type) := α × Option TypeId

def TypeTable.quotedName (types : TypeTable) (type : TypeId) : String :=
  "'" ++ types.nameOf type ++ "'"

/-- The type of a literal, by the name of its type. -/
def Literal.typeName : Literal → String
  | int _ => "int"
  | float _ => "float"
  | bool _ => "bool"
  | string _ => "string"

namespace UnaryOp

/-- What the operator requires of its operand, for a message. -/
def expectation : UnaryOp → String
  | neg => "'int' or 'float'"
  | not => "'bool'"

/-- The operator can be used on the type; then that is also the result type. -/
def accepts (types : TypeTable) : UnaryOp → TypeId → Bool
  | neg, type => types.isNumeric type
  | not, type => types.isNamed "bool" type

end UnaryOp

namespace BinaryOp

def expectation : BinaryOp → String
  | equal | unequal => "matching types"
  | and | or | xor => "'bool' operands"
  | mod => "'int' operands"
  | add => "matching numeric types or a 'string'"
  | _ => "matching numeric types"

/-- The result type of an operator that stands between its operands, if it can
be used on their types. -/
def result? (types : TypeTable) (op : BinaryOp) (left right : TypeId) : Option TypeId :=
  match op with
  | equal | unequal => if left = right then types.get? "bool" else none
  | less | greater | lessEquals | greaterEquals =>
    if left = right ∧ types.isNumeric left then types.get? "bool" else none
  | and | or | xor =>
    if types.isNamed "bool" left ∧ types.isNamed "bool" right then some left else none
  | add =>
    if types.isNamed "string" left ∨ types.isNamed "string" right then types.get? "string"
    else if left = right ∧ types.isNumeric left then some left else none
  | sub | mul | div => if left = right ∧ types.isNumeric left then some left else none
  | mod => if types.isNamed "int" left ∧ types.isNamed "int" right then some left else none
  | subscript | memberAccess => none

end BinaryOp

/-- The type of a name that is used as a value. -/
def Ident.valueType (symbols : SymbolTable) (initializing? : Option SymbolId) (i : Ident) :
    Reported (Option TypeId) := do
  match i.symbol?.bind symbols.symbol? with
  | none => return none
  | some symbol =>
    if symbol.kind = .function then
      Reported.report (.functionUsedAsVariable i.name) i.token
      return none
    else if initializing? = i.symbol? then
      Reported.report (.usedInOwnDefinition i.name) i.token
      return none
    else return i.type?

namespace Typing

/-- The type of an element of an array. The faults of both parts are reported
at the index. -/
def subscript (types : TypeTable) (array index : TypeId) (place : Token) :
    Reported (Option TypeId) := do
  let fault (expected : String) (received : TypeId) : Fault :=
    .operandTypeError BinaryOp.subscript.symbol expected (types.quotedName received)
  match types.element? array with
  | none =>
    Reported.report (fault "an array" array) place
    return none
  | some element =>
    if types.isNamed "int" index then return some element
    else
      Reported.report (fault "an 'int' index" index) place
      return none

/-- The type of an operator between two operands of known types. -/
def between (types : TypeTable) (op : BinaryOp) (left right : TypeId) (operator : Token) :
    Reported (Option TypeId) := do
  match op.result? types left right with
  | some type => return some type
  | none =>
    let received := types.quotedName left ++ " and " ++ types.quotedName right
    Reported.report (.operandTypeError op.symbol op.expectation received) operator
    return none

/-- The type of an expression with two operands, from what is known about
them. Nothing is said if the type of one is not known. -/
def binary (types : TypeTable) (op : BinaryOp) (left? right? : Option TypeId)
    (operator rightToken : Token) : Reported (Option TypeId) := do
  match left?, right? with
  | some left, some right =>
    if op = .subscript then subscript types left right rightToken
    else between types op left right operator
  | _, _ => return none

/-- The type of an operator in front of an operand. -/
def unary (types : TypeTable) (op : UnaryOp) (operand? : Option TypeId) (operandToken : Token) :
    Reported (Option TypeId) := do
  match operand? with
  | none => return none
  | some type =>
    if op.accepts types type then return some type
    else
      Reported.report (.operandTypeError op.symbol op.expectation (types.quotedName type))
        operandToken
      return none

/-- A member of a value; no type has members. -/
def member (types : TypeTable) (left? : Option TypeId) (dot : Token) :
    Reported (Option TypeId) := do
  match left? with
  | none => return none
  | some type =>
    Reported.report (.unsupportedOperation BinaryOp.memberAccess.symbol (types.nameOf type)) dot
    return none

/-- Compares arguments with parameters, pair by pair. Pairs with a type that is
not known are passed over, and so is what has no counterpart. -/
def arguments (types : TypeTable) :
    Nat → List (Typed Expr) → List (String × Option TypeId) → Reported Unit
  | index, (arg, actual?) :: args, (_, required?) :: params => do
    match actual?, required? with
    | some actual, some required =>
      if actual ≠ required then
        Reported.report
          (.argumentTypeMatchError index (types.nameOf required) (types.nameOf actual)) arg.token
    | _, _ => pure ()
    arguments types (index + 1) args params
  | _, _, _ => pure ()

/-- The type of a call, from what is known about its arguments. -/
def call (types : TypeTable) (symbols : SymbolTable) (callee : Ident)
    (args : List (Typed Expr)) : Reported (Option TypeId) := do
  match callee.symbol?.bind symbols.symbol? with
  | none => return none
  | some function =>
    if function.kind ≠ .function then
      Reported.report (.notAFunction callee.name) callee.token
      return none
    else
      if args.length ≠ function.params.length then
        Reported.report
          (.argumentCountMismatch callee.name function.params.length args.length) callee.token
      arguments types 1 args function.params
      return function.type?

end Typing

namespace Expr

/-- Writes a type that was found into the root of an expression. -/
def record (e : Expr) (type? : Option TypeId) : Typed Expr :=
  match type? with
  | some type => (e.withType (some type), some type)
  | none => (e, none)

/-- The expression with the types of its literals. -/
def typeLiterals (types : TypeTable) : Expr → Expr
  | literal value token _ => literal value token (types.get? value.typeName)
  | ident i => ident i
  | unary op operand token type? => unary op (operand.typeLiterals types) token type?
  | binary op left right token type? =>
      binary op (left.typeLiterals types) (right.typeLiterals types) token type?
  | call callee args openParen type? => call callee (typeAll args) openParen type?
where
  typeAll : List Expr → List Expr
    | [] => []
    | e :: es => e.typeLiterals types :: typeAll es

def infer (types : TypeTable) (symbols : SymbolTable) (initializing? : Option SymbolId) :
    Expr → Reported (Typed Expr)
  | literal value token type? => return (literal value token type?, type?)
  | ident i => do
    let type? ← i.valueType symbols initializing?
    return (ident i).record type?
  | unary op operand token type? => do
    let (operand, operand?) ← operand.infer types symbols initializing?
    let found? ← Typing.unary types op operand? operand.token
    return (unary op operand token type?).record found?
  | binary op left right token type? => do
    let (left, left?) ← left.infer types symbols initializing?
    if op = .memberAccess then
      let found? ← Typing.member types left? token
      return (binary op left right token type?).record found?
    else
      let (right, right?) ← right.infer types symbols initializing?
      let found? ← Typing.binary types op left? right? token right.token
      return (binary op left right token type?).record found?
  | call callee args openParen type? => do
    let args ← inferAll args
    let found? ← Typing.call types symbols callee args
    return (call callee (args.map Prod.fst) openParen type?).record found?
where
  inferAll : List Expr → Reported (List (Typed Expr))
    | [] => return []
    | e :: es => do
      let e ← e.infer types symbols initializing?
      let es ← inferAll es
      return e :: es

end Expr

end ScriptFront
