import ScriptFront.Program.Parser
import ScriptFront.Proofs.Parsing.Procedures

/-!
# The parsers as procedures

The parsers that run themselves or one another, and what each of them does step by step.
Where a parser of the language is given the parser for the parts as a parameter, and a
number that bounds how often or how deep it is run, its procedure makes a call, and no
number bounds anything. A repetition is a call too: it goes on by calling itself.

Run with a meaning, a procedure is what the parser makes of the parsers that the calls
stand for.
-/
namespace ScriptFront

/-! ## Calls -/

/-- The parsers that run themselves or one another. -/
inductive Routine where
  | program | globals | moreParams
  | statement | statements | moreArguments
  | wholeExpression | expression | operators | arguments
deriving DecidableEq

/-- The calls of these parsers. -/
inductive ParserCall where
  | program
  | globals
  | moreParams
  | statement
  | statements
  | moreArguments
  | wholeExpression
  | expression (power : BindingPower)
  | operators (power : BindingPower) (left : Expr)
  | arguments

namespace ParserCall

def routine : ParserCall → Routine
  | program => .program
  | globals => .globals
  | moreParams => .moreParams
  | statement => .statement
  | statements => .statements
  | moreArguments => .moreArguments
  | wholeExpression => .wholeExpression
  | expression _ => .expression
  | operators _ _ => .operators
  | arguments => .arguments

/-- What a match yields. -/
abbrev Answer : ParserCall → Type
  | program => Program
  | globals => List Global
  | moreParams => List Param
  | statement => Stmt
  | statements => List Stmt
  | moreArguments | arguments => List Expr
  | wholeExpression | expression _ | operators _ _ => Expr

end ParserCall

/-- Parsers for expressions and statements, from which the others are put together. -/
structure Meanings where
  expression : BindingPower → Parser Expr
  operators : BindingPower → Expr → Parser Expr
  arguments : Parser (List Expr)
  statement : Parser Stmt
  statements : Parser (List Stmt)

/-- The parsers of the language. -/
def Meanings.real : Meanings where
  expression := Parser.expression
  operators power left := Parser.bounded fun rounds =>
    Parser.climb Parser.expression power rounds left
  arguments := Parser.bounded (Continuation.arguments Parser.expression)
  statement := Parser.statement
  statements := Parser.many Parser.statement

namespace ParserCall

/-- What a call means among given parsers for expressions and statements. -/
def parserAmong (m : Meanings) : ∀ c : ParserCall, Parser c.Answer
  | program => Parser.program
  | globals => Parser.many Parser.global
  | moreParams => Parser.many Parser.nextParam
  | statement => m.statement
  | statements => m.statements
  | moreArguments => Parser.many Parser.nextArgument
  | wholeExpression => Parser.wholeExpression
  | expression power => m.expression power
  | operators power left => m.operators power left
  | arguments => m.arguments

abbrev parser (c : ParserCall) : Parser c.Answer := c.parserAmong .real

end ParserCall

/-! ## Steps -/

namespace Procedure

variable {Call : Type} {Answer : Call → Type} {α : Type}

/-- Fails with the error of a computation that has one. -/
def ofExcept : Except Diagnostic α → Procedure Answer α
  | .ok a => pure a
  | .error d => fail d

def typeName : Procedure Answer TypeName := do
  let token ← accept .identifier
  let brackets? ← optional <| attempt (← production) do
    let _ ← accept .openBracket
    accept .closeBracket
  return ⟨token, brackets?.isSome, none⟩

def ident : Procedure Answer Ident := do
  let token ← accept .identifier
  return ⟨token, none, none⟩

/-- How the next token continues an expression. -/
def continuation? (power : BindingPower) :
    Procedure Answer (Option (Continuation × BindingPower)) := do
  let kind ← currentKind
  let table := (← grammar).operators
  if (table.power kind).level ≤ power.level then return none
  else return (table.continuation? kind).map (·, table.power kind)

end Procedure

/-- A procedure that calls parsers of the language. -/
abbrev Steps (α : Type) := Procedure ParserCall.Answer α

namespace Steps

open Procedure

/-! ## Calls of the parsers that recur -/

def globals : Steps (List Global) := call ParserCall.globals

def moreParams : Steps (List Param) := call ParserCall.moreParams

def statement : Steps Stmt := call ParserCall.statement

def statements : Steps (List Stmt) := call ParserCall.statements

def moreArguments : Steps (List Expr) := call ParserCall.moreArguments

def expression (power : BindingPower) : Steps Expr := call (ParserCall.expression power)

def operators (power : BindingPower) (left : Expr) : Steps Expr :=
  call (ParserCall.operators power left)

def arguments : Steps (List Expr) := call ParserCall.arguments

/-! ## Expressions -/

def opening : Opening → Steps Expr
  | .primary => do
    let token ← advance
    ofExcept (Expr.ofToken token)
  | .signed => do
    let sign ← advance
    let operand ← expression .primary
    return Expr.ofSign sign operand
  | .grouping => do
    let _ ← advance
    let inner ← expression .lowest
    let _ ← expect .closeParen
    return inner

def operand : Steps Expr := do
  let kind ← currentKind
  match (← grammar).operators.opening? kind with
  | some o => opening o
  | none =>
    let token ← advance
    fail (.unexpected token "expected an expression")

def argumentsAndClose : Steps (List Expr) := do
  if (← currentKind) = .closeParen then
    let _ ← advance
    return []
  else
    let args ← arguments
    let _ ← expect .closeParen
    return args

def continuation (left : Expr) (power : BindingPower) : Continuation → Steps Expr
  | .binary => do
    let operator ← advance
    match BinaryOp.ofKind? operator.kind with
    | none => fail (.unexpected operator "expected an operator")
    | some op =>
      let right ← expression power
      return .binary op left right operator none
  | .call => do
    let openParen ← advance
    match left with
    | .ident callee =>
      let args ← argumentsAndClose
      return .call callee args openParen none
    | _ => fail (.unexpected left.token "only a name can be called")
  | .subscript => do
    let openBracket ← advance
    let index ← expression .lowest
    let _ ← expect .closeBracket
    return .binary .subscript left index openBracket none
  | .member => do
    let dot ← advance
    if (← currentKind) = .identifier then
      let name ← expression .primary
      return .binary .memberAccess left name dot none
    else
      let token ← advance
      fail (.unexpected token "expected a member name after '.'")

def expression? : Steps Expr := tentative "expression" (expression .lowest)

/-! ## Statements -/

def nextArgument : Steps Expr :=
  attempt "argument list" do
    let _ ← accept .comma
    expression?

def argumentList : Steps (List Expr) := do
  let args? ← optional <| attempt "argument list" do
    let first ← expression?
    let rest ← moreArguments
    return first :: rest
  return args?.getD []

def block : Steps (List Stmt × Token) :=
  attempt "statement block" do
    let openBrace ← accept .openCurly
    let statements ← statements
    let _ ← accept .closeCurly
    return (statements, openBrace)

def initializer : Steps Expr :=
  attempt "variable declaration" do
    let _ ← accept .assignment
    expression?

def elseBranch? : Steps (Option Stmt) := do
  if (← currentKind) = .elseWord then
    let branch ← committed <| attempt "if-else statement" do
      let _ ← accept .elseWord
      committed statement
    return some branch
  else return none

def form : StmtForm → Steps Stmt
  | .whileLoop => attempt "while statement" do
    let token ← accept .whileWord
    committed do
      let _ ← accept .openParen
      let condition ← expression?
      let _ ← accept .closeParen
      let body ← statement
      return .whileLoop condition body token
  | .call => attempt "call statement" do
    let callee ← ident
    let openParen ← accept .openParen
    let args ← argumentList
    let _ ← accept .closeParen
    let _ ← accept .semicolon
    return .call callee args openParen
  | .breakLoop => attempt "break statement" do
    let token ← accept .breakWord
    let _ ← accept .semicolon
    return .breakLoop token
  | .emptyReturn => attempt "return statement" do
    let token ← accept .returnWord
    let _ ← accept .semicolon
    return .returnValue none token
  | .valueReturn => attempt "return statement" do
    let token ← accept .returnWord
    let value ← expression?
    let _ ← accept .semicolon
    return .returnValue (some value) token
  | .varDecl => attempt "variable declaration" do
    let type ← typeName
    let name ← accept .identifier
    let initializer? ← optional initializer
    let _ ← accept .semicolon
    return .varDecl type name initializer? none
  | .assign => attempt "assignment" do
    let target ← ident
    let _ ← accept .assignment
    let value ← expression?
    let _ ← accept .semicolon
    return .assign target value
  | .ifThen => do
    if (← currentKind) = .ifWord then
      attempt "if statement" do
        let token ← accept .ifWord
        let _ ← accept .openParen
        committed do
          let condition ← expression?
          let _ ← accept .closeParen
          let thenBranch ← statement
          match ← elseBranch? with
          | none => return .ifThen condition thenBranch token
          | some other => return .ifThenElse condition thenBranch other token
    else noMatch
  | .block => do
    let (statements, openBrace) ← block
    return .block statements openBrace
  | .empty => attempt "empty statement" do
    let token ← accept .semicolon
    return .empty token

/-! ## Programs -/

def param : Steps Param :=
  attempt "parameter" do
    let type ← typeName
    let name ← accept .identifier
    return ⟨type, name, none⟩

def nextParam : Steps Param :=
  attempt "parameter list" do
    let _ ← accept .comma
    param

def paramList : Steps (List Param) := do
  let params? ← optional <| attempt "parameter list" do
    let first ← param
    let rest ← moreParams
    return first :: rest
  return params?.getD []

def fnDef : Steps FnDef :=
  attempt "function definition" do
    let returnType ← typeName
    let name ← accept .identifier
    let openParen ← accept .openParen
    let params ← paramList
    let _ ← accept .closeParen
    let (body, openBrace) ← block
    return ⟨returnType, name, params, openParen, body, openBrace, none⟩

def globalVar : Steps GlobalVar :=
  attempt "global variable declaration" do
    let type ← typeName
    let name ← accept .identifier
    let _ ← accept .semicolon
    return ⟨type, name, none⟩

def global : Steps Global := do
  (Global.function <$> fnDef).orElse (Global.var <$> globalVar)

end Steps

open Procedure in
/-- What a call does. -/
def ParserCall.body : ∀ c : ParserCall, Steps c.Answer
  | program => do
    let globals ← Steps.globals
    if (← currentKind) = .endOfInput then return ⟨globals⟩ else stop
  | globals => orNothing Steps.global Steps.globals
  | moreParams => orNothing Steps.nextParam Steps.moreParams
  | statement => do
    firstOf ((← grammar).forms.map Steps.form)
  | statements => orNothing Steps.statement Steps.statements
  | moreArguments => orNothing Steps.nextArgument Steps.moreArguments
  | wholeExpression => do
    let e ← Steps.expression .lowest
    if (← currentKind) = .endOfInput then return e
    else
      let _ ← advance
      stop
  | expression power => do
    let left ← Steps.operand
    Steps.operators power left
  | operators power left => do
    match ← continuation? power with
    | none => return left
    | some (continuation, tighter) =>
      let longer ← Steps.continuation left tighter continuation
      Steps.operators power longer
  | arguments => do
    let first ← Steps.expression .lowest
    if (← currentKind) = .comma then
      let _ ← advance
      let rest ← Steps.arguments
      return first :: rest
    else return [first]

/-! ## What the procedures mean -/

namespace Procedure

variable {Call : Type} {Answer : Call → Type} {α β : Type} (env : ∀ c, Parser (Answer c))

@[simp] theorem run_map (f : α → β) (p : Procedure Answer α) :
    (f <$> p).run env = f <$> p.run env := run_bind env p _

@[simp] theorem run_ofExcept (x : Except Diagnostic α) :
    (ofExcept x : Procedure Answer α).run env = Parser.ofExcept x := by
  cases x <;> rfl

@[simp] theorem run_typeName :
    (typeName : Procedure Answer TypeName).run env = Parser.typeName := by
  simp [typeName, Parser.typeName]

@[simp] theorem run_ident : (ident : Procedure Answer Ident).run env = Parser.ident := by
  simp [ident, Parser.ident]

@[simp] theorem run_continuation? (power : BindingPower) :
    (continuation? power : Procedure Answer _).run env = Parser.continuation? power := by
  simp [continuation?, Parser.continuation?]

end Procedure

namespace Steps

variable {m : Meanings}

open Procedure
open ParserCall (parserAmong)

@[simp] theorem run_globals : globals.run (parserAmong m) = Parser.many Parser.global := rfl

@[simp] theorem run_moreParams :
    moreParams.run (parserAmong m) = Parser.many Parser.nextParam := rfl

@[simp] theorem run_statement : statement.run (parserAmong m) = m.statement := rfl

@[simp] theorem run_statements : statements.run (parserAmong m) = m.statements := rfl

@[simp] theorem run_moreArguments :
    moreArguments.run (parserAmong m) = Parser.many Parser.nextArgument := rfl

@[simp] theorem run_expression (power : BindingPower) :
    (expression power).run (parserAmong m) = m.expression power := rfl

@[simp] theorem run_operators (power : BindingPower) (left : Expr) :
    (operators power left).run (parserAmong m) = m.operators power left := rfl

@[simp] theorem run_arguments : arguments.run (parserAmong m) = m.arguments := rfl

theorem run_opening (o : Opening) :
    (opening o).run (parserAmong m) = o.parse m.expression := by
  cases o <;> simp [opening, Opening.parse]

@[simp] theorem run_operand : operand.run (parserAmong m) = Parser.operand m.expression := by
  simp only [operand, Parser.operand, run_bind]
  congr 1
  funext kind
  congr 1
  funext g
  cases g.operators.opening? kind with
  | none => simp
  | some o => exact run_opening o

section
variable (hargs : m.arguments = Parser.bounded (Continuation.arguments m.expression))
include hargs

theorem run_argumentsAndClose :
    argumentsAndClose.run (parserAmong m) = Continuation.argumentsAndClose m.expression := by
  simp [argumentsAndClose, Continuation.argumentsAndClose, hargs]

theorem run_continuation (left : Expr) (power : BindingPower) (c : Continuation) :
    (continuation left power c).run (parserAmong m) = c.parse m.expression left power := by
  cases c with
  | binary =>
      simp only [continuation, Continuation.parse, run_bind]
      congr 1
      funext operator
      cases BinaryOp.ofKind? operator.kind <;> simp
  | call => cases left <;> simp [continuation, Continuation.parse, run_argumentsAndClose hargs]
  | subscript => simp [continuation, Continuation.parse]
  | member => simp [continuation, Continuation.parse]

end

section
variable (hexpr : m.expression = Parser.expression)
include hexpr

theorem run_expression? : expression?.run (parserAmong m) = Parser.expression? := by
  simp [expression?, Parser.expression?, hexpr]

theorem run_nextArgument : nextArgument.run (parserAmong m) = Parser.nextArgument := by
  simp [nextArgument, Parser.nextArgument, run_expression? hexpr]

theorem run_argumentList : argumentList.run (parserAmong m) = Parser.argumentList := by
  simp [argumentList, Parser.argumentList, run_expression? hexpr]

theorem run_initializer : initializer.run (parserAmong m) = Parser.initializer := by
  simp [initializer, Parser.initializer, run_expression? hexpr]

end

theorem run_block (hmany : m.statements = Parser.many m.statement) :
    block.run (parserAmong m) = Parser.blockOf m.statement := by
  simp [block, Parser.blockOf, hmany]

theorem run_elseBranch? : elseBranch?.run (parserAmong m) = Parser.elseBranch? m.statement := by
  simp [elseBranch?, Parser.elseBranch?]

theorem run_form (hexpr : m.expression = Parser.expression)
    (hmany : m.statements = Parser.many m.statement) (f : StmtForm) :
    (form f).run (parserAmong m) = Parser.statementOf m.statement f := by
  cases f with
  | ifThen =>
      have hother (condition : Expr) (thenBranch : Stmt) (token : Token) (other? : Option Stmt) :
          (match other? with
            | none => pure (.ifThen condition thenBranch token)
            | some other => pure (.ifThenElse condition thenBranch other token) :
              Steps Stmt).run (parserAmong m) =
          match other? with
            | none => pure (.ifThen condition thenBranch token)
            | some other => pure (.ifThenElse condition thenBranch other token) := by
        cases other? <;> rfl
      simp only [form, run_bind, run_currentKind, run_ite, run_attempt, run_accept,
        run_committed, run_expression? hexpr, run_statement, run_elseBranch?, run_noMatch, hother]
      rfl
  | _ =>
      simp [form, Parser.statementOf, run_expression? hexpr, run_argumentList hexpr,
        run_initializer hexpr, run_block hmany]

@[simp] theorem run_param : param.run (parserAmong m) = Parser.param := by
  simp [param, Parser.param]

@[simp] theorem run_nextParam : nextParam.run (parserAmong m) = Parser.nextParam := by
  simp [nextParam, Parser.nextParam]

@[simp] theorem run_paramList : paramList.run (parserAmong m) = Parser.paramList := by
  simp [paramList, Parser.paramList]

@[simp] theorem run_globalVar : globalVar.run (parserAmong m) = Parser.globalVar := by
  simp [globalVar, Parser.globalVar]

section
variable (hstmt : m.statement = Parser.statement) (hmany : m.statements = Parser.many m.statement)
include hstmt hmany

theorem run_fnDef : fnDef.run (parserAmong m) = Parser.fnDef := by
  simp [fnDef, Parser.fnDef, run_block hmany, hstmt, Parser.block]

theorem run_global : global.run (parserAmong m) = Parser.global := by
  simp [global, Parser.global, run_fnDef hstmt hmany]

end

end Steps

end ScriptFront
