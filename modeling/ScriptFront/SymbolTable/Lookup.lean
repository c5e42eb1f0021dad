import ScriptFront.SymbolTable.Basic

/-!
# Looking up a name

A name is looked up from a scope outwards, and the place where it is used tells
what kind of symbol is preferred there. A symbol of another kind gives way to a
preferred one further out; only if there is none is it the answer.
-/
namespace ScriptFront

/-- What kind of symbol the use of a name prefers. -/
inductive Preference where
  | function | value | any
deriving DecidableEq, Repr

/-- The kind of symbol is a preferred one. -/
def Preference.accepts : Preference → SymbolKind → Bool
  | function, kind => kind == .function
  | value, kind => kind.isVariableLike
  | any, _ => true

namespace SymbolTable

def isPreferred (t : SymbolTable) (preference : Preference) (symbol : SymbolId) : Bool :=
  ((t.symbol? symbol).map fun s => preference.accepts s.kind).getD false

/-- The symbol that a name stands for in a scope. -/
def lookup? (t : SymbolTable) (name : String) (preference : Preference) (scope : ScopeId) :
    Option SymbolId :=
  match t.local? scope name with
  | none =>
    match t.parentBelow? scope with
    | some ⟨parent, _⟩ => t.lookup? name preference parent
    | none => none
  | some found =>
    if t.isPreferred preference found then some found
    else
      match t.parentBelow? scope with
      | some ⟨parent, _⟩ =>
        ((t.lookup? name preference parent).filter (t.isPreferred preference)).or (some found)
      | none => some found
termination_by scope.index

end SymbolTable

end ScriptFront
