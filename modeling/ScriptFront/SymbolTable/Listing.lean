import ScriptFront.SymbolTable.Basic
import ScriptFront.TypeTable

/-!
# Listing symbols

A symbol is written with its type, and qualified by the names of the scopes
around it, joined by dots. The listing of a table goes through the scopes from
the global one inwards: the symbols of a scope in the order of their names, and
then the scopes inside of it in the order of theirs.
-/
namespace ScriptFront.SymbolTable

/-- The names of the scopes around a scope and of the scope itself, outermost
first. -/
def path (t : SymbolTable) (scope : ScopeId) : List String :=
  let outer :=
    match t.parentBelow? scope with
    | some ⟨parent, _⟩ => t.path parent
    | none => []
  outer ++ ((t.scope? scope).map Scope.name).toList
termination_by scope.index

/-- The name of a scope with the scopes around it. -/
def qualifiedName (t : SymbolTable) (scope : ScopeId) : String :=
  ".".intercalate (t.path scope)

/-- A type that may be missing. -/
def typeText (types : TypeTable) (type? : Option TypeId) : String :=
  (type?.map types.nameOf).getD "?"

/-- The parameters of a function, each followed by a comma. -/
def paramsText (types : TypeTable) (params : List (String × Option TypeId)) : String :=
  String.join (params.map fun p => p.1 ++ " : " ++ typeText types p.2 ++ ", ")

/-- A symbol with its type. -/
def signature (types : TypeTable) (s : Symbol) : String :=
  match s.kind with
  | .function => typeText types s.type? ++ " " ++ s.name ++ "( " ++ paramsText types s.params ++ ")"
  | .classType => s.name ++ " : class"
  | _ => s.name ++ " : " ++ typeText types s.type?

/-- A symbol with its type and the scopes around it. -/
def qualifiedSignature (t : SymbolTable) (types : TypeTable) (s : Symbol) : String :=
  t.qualifiedName s.scope ++ "." ++ signature types s

/-- The symbols of a scope and of all scopes inside of it. A scope inside has a
greater number, so that going inwards ends. -/
def symbolsWithin (t : SymbolTable) (scope : ScopeId) : List SymbolId :=
  if h : scope.index < t.scopes.size then
    let s := t.scopes[scope.index]
    s.symbols.values ++ s.children.values.flatMap fun child =>
      if scope.index < child.index then t.symbolsWithin child else []
  else []
termination_by t.scopes.size - scope.index
decreasing_by omega

/-- One line for each symbol. -/
def listing (t : SymbolTable) (types : TypeTable) : List String :=
  (t.symbolsWithin .global).filterMap fun id =>
    (t.symbol? id).map (t.qualifiedSignature types)

end ScriptFront.SymbolTable
