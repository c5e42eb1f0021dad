import ScriptFront.Diagnostic.Reported
import ScriptFront.Expr.Typing
import ScriptFront.Program.Basic

/-!
# Declarations

The first analysis of a program. It declares every function, parameter and
variable in the symbol table, opens a scope for every function and every block,
resolves the types that are written, and gives literals their types. It also
finds each `break` that is in no loop.

A function lives in the global scope and has a scope of its own there, with its
parameters and an entry for its result; the block that is its body opens a
further scope inside. A branch or a loop body that is no block has no scope of
its own. What cannot be declared is reported and passed over.
-/
namespace ScriptFront

/-- A computation that declares names and reports what is wrong. -/
abbrev Declaring := StateT SymbolTable Reported

namespace Declaring

def report (fault : Fault) (token : Token) : Declaring Unit :=
  StateT.lift (Reported.report fault token)

/-- Makes an addition to the symbol table, if it can be made. -/
def add? (addition : SymbolTable → Option (α × SymbolTable)) : Declaring (Option α) := fun t =>
  match addition t with
  | some (a, t) => pure (some a, t)
  | none => pure (none, t)

/-- Declares a name in a scope, if it is free. -/
def newSymbol? (scope : ScopeId) (kind : SymbolKind) (name : Token) (type? : Option TypeId) :
    Declaring (Option SymbolId) :=
  add? fun t => t.addSymbol? scope { name := name.text, kind, declaration := name, type? }

/-- Opens the scope of a block, or the scope of that name that exists. -/
def blockScope? (scope : ScopeId) (name : String) : Declaring (Option ScopeId) := do
  match ← add? fun t => t.addSubScope? scope name with
  | some inner => return some inner
  | none => return (← get).subScope? scope name

/-- Declares a variable: its type with the type that is meant, and its symbol.
If the type cannot be that of a variable, nothing is declared. -/
def newVariable? (types : TypeTable) (scope : ScopeId) (kind : SymbolKind) (type : TypeName)
    (name : Token) : Declaring (Option (TypeName × Option SymbolId)) := do
  match ← StateT.lift (Reported.ofExcept (types.resolveStorage type)) with
  | none => return none
  | some resolved =>
    let symbol? ← Declaring.newSymbol? scope kind name (some resolved)
    if symbol?.isNone then report (.variableAlreadyDeclared name.text) name
    return some ({ type with resolved? := some resolved }, symbol?)

end Declaring

/-- Declares what a statement in a scope declares. The statement is inside of
`loops` loops. -/
def Stmt.declare (types : TypeTable) (scope : ScopeId) (loops : Nat) : Stmt → Declaring Stmt
  | empty token => return empty token
  | breakLoop token => do
    if loops = 0 then Declaring.report .breakOutsideLoop token
    return breakLoop token
  | whileLoop condition body token => do
    let body ← body.declare types scope (loops + 1)
    return whileLoop (condition.typeLiterals types) body token
  | ifThen condition thenBranch token => do
    let thenBranch ← thenBranch.declare types scope loops
    return ifThen (condition.typeLiterals types) thenBranch token
  | ifThenElse condition thenBranch elseBranch token => do
    let thenBranch ← thenBranch.declare types scope loops
    let elseBranch ← elseBranch.declare types scope loops
    return ifThenElse (condition.typeLiterals types) thenBranch elseBranch token
  | block statements openBrace => do
    match ← Declaring.blockScope? scope (blockScopeName openBrace) with
    | none => return block statements openBrace
    | some inner =>
      let statements ← declareAll inner loops statements
      return block statements openBrace
  | assign target value => return assign target (value.typeLiterals types)
  | returnValue value? token => return returnValue (value?.map (·.typeLiterals types)) token
  | varDecl type name initializer? symbol? => do
    match ← Declaring.newVariable? types scope .localVariable type name with
    | none => return varDecl type name initializer? symbol?
    | some (type, symbol?) =>
      return varDecl type name (initializer?.map (·.typeLiterals types)) symbol?
  | call callee args openParen =>
    return call callee (Expr.typeLiterals.typeAll types args) openParen
where
  declareAll (scope : ScopeId) (loops : Nat) : List Stmt → Declaring (List Stmt)
    | [] => return []
    | s :: ss => do
      let s ← s.declare types scope loops
      let ss ← declareAll scope loops ss
      return s :: ss

namespace FnDef

/-- The entry of a parameter in the signature of its function. -/
abbrev SignatureEntry := String × Option TypeId

/-- Declares a parameter in the scope of its function. Only a parameter that
could be declared has an entry in the signature. -/
def declareParam (types : TypeTable) (scope : ScopeId) (function : String) (p : Param) :
    Declaring (Param × Option SignatureEntry) := do
  match ← StateT.lift (Reported.ofExcept (types.resolveStorage p.type)) with
  | none => return (p, none)
  | some type =>
    let p := { p with type := { p.type with resolved? := some type } }
    match ← Declaring.newSymbol? scope .parameter p.name (some type) with
    | none =>
      Declaring.report (.parameterAlreadyDeclared p.name.text function) p.name
      return (p, none)
    | some id => return ({ p with symbol? := some id }, some (p.name.text, some type))

def declareParams (types : TypeTable) (scope : ScopeId) (function : String) :
    List Param → Declaring (List Param × List SignatureEntry)
  | [] => return ([], [])
  | p :: ps => do
    let (p, entry?) ← declareParam types scope function p
    let (ps, entries) ← declareParams types scope function ps
    return (p :: ps, entry?.toList ++ entries)

/-- Declares what is inside of a function: its result, its parameters, and what
its body declares. -/
def declareInside (types : TypeTable) (scope : ScopeId) (symbol : SymbolId)
    (returnType? : Option TypeId) (f : FnDef) : Declaring FnDef := do
  let returnValue : Symbol :=
    { name := Symbol.returnValueName, kind := .returnValue, declaration := f.name,
      type? := returnType? }
  if (← Declaring.add? fun t => t.addSymbol? scope returnValue).isNone then
    Declaring.report (.returnValueAlreadyDeclared f.name.text) f.name
  let (params, signature) ← declareParams types scope f.name.text f.params
  modify fun t => t.setSignature symbol returnType? signature
  match ← Declaring.blockScope? scope (Stmt.blockScopeName f.openBrace) with
  | none => return { f with params }
  | some inner =>
    let body ← Stmt.declare.declareAll types inner 0 f.body
    return { f with params, body }

/-- Declares a function. If its name is taken, nothing inside of it is
declared. -/
def declare (types : TypeTable) (f : FnDef) : Declaring FnDef := do
  let returnType? ← StateT.lift (Reported.ofExcept (types.resolve f.returnType))
  let f := { f with returnType := { f.returnType with resolved? := returnType? } }
  match ← Declaring.newSymbol? .global .function f.name returnType? with
  | none =>
    Declaring.report (.functionAlreadyDeclared f.name.text) f.name
    return f
  | some symbol =>
    let f := { f with symbol? := some symbol }
    match ← Declaring.add? fun t => t.addSubScope? .global f.name.text with
    | none => return f
    | some scope => f.declareInside types scope symbol returnType?

end FnDef

def GlobalVar.declare (types : TypeTable) (v : GlobalVar) : Declaring GlobalVar := do
  match ← Declaring.newVariable? types .global .globalVariable v.type v.name with
  | none => return v
  | some (type, symbol?) => return { v with type, symbol? }

def Global.declare (types : TypeTable) : Global → Declaring Global
  | function f => function <$> f.declare types
  | var v => var <$> v.declare types

def Global.declareAll (types : TypeTable) : List Global → Declaring (List Global)
  | [] => return []
  | g :: gs => do
    let g ← g.declare types
    let gs ← declareAll types gs
    return g :: gs

def Program.declare (types : TypeTable) (p : Program) : Declaring Program := do
  let globals ← Global.declareAll types p.globals
  return ⟨globals⟩

end ScriptFront
