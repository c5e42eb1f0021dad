import ScriptFront.Expr.Binding
import ScriptFront.Expr.Typing
import ScriptFront.Program.Basic

/-!
# Checking

The second analysis of a program, against the symbols that were declared. It
binds all names and types all expressions. When the parts of a statement are
done, the types are compared with what the statement requires: a condition is
of type `bool`, an assigned or initial value is of the type of the variable, and
a returned value is of the type of the function.

A function, a block or a declaration that was not declared is passed over.
-/
namespace ScriptFront

/-- Binds the names of an expression in a scope and finds its type. -/
def Expr.check (types : TypeTable) (symbols : SymbolTable) (scope : ScopeId)
    (initializing? : Option SymbolId) (e : Expr) : Reported (Typed Expr) := do
  let e ← e.bindNames symbols scope
  e.infer types symbols initializing?

namespace Checking

/-- Types a condition, whose type must be `bool`. -/
def condition (types : TypeTable) (symbols : SymbolTable) (statement : String) (token : Token)
    (e : Expr) : Reported Expr := do
  let (e, found?) ← e.infer types symbols none
  match found? with
  | none => return e
  | some type =>
    if types.isNamed "bool" type then return e
    else
      Reported.report (.conditionTypeError statement (types.nameOf type)) token
      return e

/-- Compares the type of a value with the type of the variable that takes it.
Nothing is said if one of them is not known. -/
def assignable (types : TypeTable) (expected? received? : Option TypeId) (token : Token) :
    Reported Unit := do
  match expected?, received? with
  | some expected, some received =>
    if expected ≠ received then
      Reported.report (.typeMatchError (types.nameOf expected) (types.nameOf received)) token
  | _, _ => pure ()

/-- The result type of the function that a scope belongs to. -/
def returnType? (symbols : SymbolTable) (scope : ScopeId) : Option TypeId := do
  let id ← symbols.lookup? Symbol.returnValueName .any scope
  let symbol ← symbols.symbol? id
  symbol.type?

/-- Types a returned value, if there is one, and compares it with the type of
the function. Where that is not known, not even the value is looked at. -/
def returned (types : TypeTable) (symbols : SymbolTable) (scope : ScopeId) (token : Token)
    (value? : Option Expr) : Reported (Option Expr) := do
  match returnType? symbols scope, value? with
  | none, _ => return value?
  | some expected, none =>
    if types.isNamed "void" expected then return none
    else
      Reported.report (.missingReturnValue (types.nameOf expected)) token
      return none
  | some expected, some value =>
    let (value, found?) ← value.infer types symbols none
    match found? with
    | none => return some value
    | some received =>
      if received = expected then return some value
      else
        Reported.report (.returnTypeMismatch (types.nameOf expected) (types.nameOf received)) token
        return some value

end Checking

def Stmt.check (types : TypeTable) (symbols : SymbolTable) (scope : ScopeId) :
    Stmt → Reported Stmt
  | empty token => return empty token
  | breakLoop token => return breakLoop token
  | whileLoop condition body token => do
    let condition ← condition.bindNames symbols scope
    let body ← body.check types symbols scope
    let condition ← Checking.condition types symbols "while" token condition
    return whileLoop condition body token
  | ifThen condition thenBranch token => do
    let condition ← condition.bindNames symbols scope
    let thenBranch ← thenBranch.check types symbols scope
    let condition ← Checking.condition types symbols "if" token condition
    return ifThen condition thenBranch token
  | ifThenElse condition thenBranch elseBranch token => do
    let condition ← condition.bindNames symbols scope
    let thenBranch ← thenBranch.check types symbols scope
    let elseBranch ← elseBranch.check types symbols scope
    let condition ← Checking.condition types symbols "if-else" token condition
    return ifThenElse condition thenBranch elseBranch token
  | block statements openBrace => do
    match symbols.subScope? scope (blockScopeName openBrace) with
    | none => return block statements openBrace
    | some inner =>
      let statements ← checkAll inner statements
      return block statements openBrace
  | assign target value => do
    let target ← target.bind symbols scope .value
    let value ← value.bindNames symbols scope
    let expected? ← target.valueType symbols none
    let (value, received?) ← value.infer types symbols none
    Checking.assignable types expected? received? target.token
    return assign target value
  | returnValue value? token => do
    let value? ← bindOptional value?
    let value? ← Checking.returned types symbols scope token value?
    return returnValue value? token
  | varDecl type name initializer? symbol? => do
    match symbol?, initializer? with
    | some symbol, some initializer =>
      let initializer ← initializer.bindNames symbols scope
      match type.resolved? with
      | none => return varDecl type name (some initializer) symbol?
      | some expected =>
        let (initializer, received?) ← initializer.infer types symbols (some symbol)
        Checking.assignable types (some expected) received? type.token
        return varDecl type name (some initializer) symbol?
    | _, _ => return varDecl type name initializer? symbol?
  | call callee args openParen => do
    let callee ← callee.bind symbols scope .function
    let args ← Expr.bindNames.bindAll symbols scope args
    let args ← Expr.infer.inferAll types symbols none args
    let _ ← Typing.call types symbols callee args
    return call callee (args.map Prod.fst) openParen
where
  checkAll (scope : ScopeId) : List Stmt → Reported (List Stmt)
    | [] => return []
    | s :: ss => do
      let s ← s.check types symbols scope
      let ss ← checkAll scope ss
      return s :: ss
  bindOptional : Option Expr → Reported (Option Expr)
    | none => return none
    | some e => do
      let e ← e.bindNames symbols scope
      return some e

def FnDef.check (types : TypeTable) (symbols : SymbolTable) (f : FnDef) : Reported FnDef := do
  let scope? := f.symbol?.bind fun _ => symbols.subScope? .global f.name.text
  match scope?.bind (symbols.subScope? · (Stmt.blockScopeName f.openBrace)) with
  | none => return f
  | some inner =>
    let body ← Stmt.check.checkAll types symbols inner f.body
    return { f with body }

/-- Checks a definition. A global variable has nothing to check. -/
def Global.check (types : TypeTable) (symbols : SymbolTable) : Global → Reported Global
  | function f => function <$> f.check types symbols
  | var v => return var v

def Global.checkAll (types : TypeTable) (symbols : SymbolTable) :
    List Global → Reported (List Global)
  | [] => return []
  | g :: gs => do
    let g ← g.check types symbols
    let gs ← checkAll types symbols gs
    return g :: gs

def Program.check (types : TypeTable) (symbols : SymbolTable) (p : Program) :
    Reported Program := do
  let globals ← Global.checkAll types symbols p.globals
  return ⟨globals⟩

end ScriptFront
