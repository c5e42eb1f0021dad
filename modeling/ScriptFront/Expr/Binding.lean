import ScriptFront.Diagnostic.Reported
import ScriptFront.SymbolTable.Lookup

/-!
# Binding names

Binding finds the symbol that each name of an expression stands for, and takes
over its declared type. The name of a called function prefers a function, every
other name prefers a variable. A variable must not be used above its
declaration. The name of a member is not looked up.

A name that cannot be bound is reported and left as it was.
-/
namespace ScriptFront

def Ident.bind (symbols : SymbolTable) (scope : ScopeId) (preference : Preference) (i : Ident) :
    Reported Ident := do
  match symbols.lookup? i.name preference scope with
  | none =>
    Reported.report (.unknownSymbol i.name) i.token
    return i
  | some id =>
    match symbols.symbol? id with
    | none => return i
    | some symbol =>
      let declared := symbol.declaration.position
      if symbol.kind.isOrdered ∧ i.token.position < declared then
        Reported.report (.usedBeforeDeclaration i.name declared.line) i.token
        return i
      else return { i with type? := symbol.type?, symbol? := some id }

def Expr.bindNames (symbols : SymbolTable) (scope : ScopeId) : Expr → Reported Expr
  | literal value token type? => return literal value token type?
  | ident i => do
    let i ← i.bind symbols scope .value
    return ident i
  | unary op operand token type? => do
    let operand ← operand.bindNames symbols scope
    return unary op operand token type?
  | binary op left right token type? => do
    let left ← left.bindNames symbols scope
    if op = .memberAccess then return binary op left right token type?
    else
      let right ← right.bindNames symbols scope
      return binary op left right token type?
  | call callee args openParen type? => do
    let callee ← callee.bind symbols scope .function
    let args ← bindAll args
    return call callee args openParen type?
where
  bindAll : List Expr → Reported (List Expr)
    | [] => return []
    | e :: es => do
      let e ← e.bindNames symbols scope
      let es ← bindAll es
      return e :: es

end ScriptFront
