import ScriptFront.Expr.Basic
import Std.Data.TreeMap.Basic

/-!
# Symbols and scopes

A symbol is a declared name. A scope holds the symbols that are declared
directly in it, and has scopes inside of it. Scopes and symbols have numbers,
which never change: a table only grows. Scope number zero is the global scope.

Within one scope a name is declared once, and has at most one scope inside. The
names of a scope are kept in the order of their characters.
-/
namespace ScriptFront

structure ScopeId where
  index : Nat
deriving DecidableEq, Repr

def ScopeId.global : ScopeId := ⟨0⟩

/-- What a name is declared as. -/
inductive SymbolKind where
  | function | localVariable | globalVariable | parameter | returnValue | classType
deriving DecidableEq, Repr

namespace SymbolKind

def name : SymbolKind → String
  | function => "Function"
  | localVariable => "Variable"
  | globalVariable => "GlobalVariable"
  | parameter => "Parameter"
  | returnValue => "ReturnValue"
  | classType => "Class"

def all : List SymbolKind :=
  [function, localVariable, globalVariable, parameter, returnValue, classType]

def ofName? (s : String) : Option SymbolKind :=
  all.find? fun k => k.name == s

/-- The symbol has a value. -/
def isVariableLike : SymbolKind → Bool
  | localVariable | globalVariable | parameter | returnValue => true
  | _ => false

/-- The symbol can be used only below its declaration. -/
def isOrdered : SymbolKind → Bool
  | localVariable | globalVariable => true
  | _ => false

end SymbolKind

/-- A declared name. For a function the type is that of its result, and the
parameters are listed in order. A type that could not be resolved is missing. -/
structure Symbol where
  name : String
  kind : SymbolKind
  declaration : Token
  type? : Option TypeId
  params : List (String × Option TypeId) := []
  scope : ScopeId := .global
deriving DecidableEq, Repr

/-- The name under which the result of a function is declared in its scope. It
is no name that a program can declare. -/
def Symbol.returnValueName : String := ":retVal:"

structure Scope where
  name : String
  parent? : Option ScopeId
  symbols : Std.TreeMap String SymbolId := ∅
  children : Std.TreeMap String ScopeId := ∅

/-- All scopes and all symbols. -/
structure SymbolTable where
  scopes : Array Scope
  symbols : Array Symbol

namespace SymbolTable

def empty : SymbolTable := ⟨#[{ name := "global", parent? := none }], #[]⟩

def scope? (t : SymbolTable) (scope : ScopeId) : Option Scope := t.scopes[scope.index]?

def symbol? (t : SymbolTable) (symbol : SymbolId) : Option Symbol := t.symbols[symbol.index]?

/-- The symbol that is declared directly in a scope. -/
def local? (t : SymbolTable) (scope : ScopeId) (name : String) : Option SymbolId :=
  (t.scope? scope).bind fun s => s.symbols[name]?

/-- The scope of a name directly inside a scope. -/
def subScope? (t : SymbolTable) (scope : ScopeId) (name : String) : Option ScopeId :=
  (t.scope? scope).bind fun s => s.children[name]?

/-- The table with another scope in place of an old one. -/
def setScope (t : SymbolTable) (scope : ScopeId) (s : Scope) : SymbolTable :=
  { t with scopes := t.scopes.setIfInBounds scope.index s }

/-- Declares a symbol in a scope, unless its name is taken there. -/
def addSymbol? (t : SymbolTable) (scope : ScopeId) (symbol : Symbol) :
    Option (SymbolId × SymbolTable) :=
  (t.scope? scope).bind fun s =>
    if s.symbols.contains symbol.name then none
    else
      let id : SymbolId := ⟨t.symbols.size⟩
      let t := t.setScope scope { s with symbols := s.symbols.insert symbol.name id }
      some (id, { t with symbols := t.symbols.push { symbol with scope } })

/-- Opens a scope inside a scope, unless its name is taken there. -/
def addSubScope? (t : SymbolTable) (parent : ScopeId) (name : String) :
    Option (ScopeId × SymbolTable) :=
  (t.scope? parent).bind fun s =>
    if s.children.contains name then none
    else
      let id : ScopeId := ⟨t.scopes.size⟩
      let t := t.setScope parent { s with children := s.children.insert name id }
      some (id, { t with scopes := t.scopes.push { name, parent? := some parent } })

/-- Gives a symbol another type and other parameters. -/
def setSignature (t : SymbolTable) (symbol : SymbolId) (type? : Option TypeId)
    (params : List (String × Option TypeId)) : SymbolTable :=
  { t with symbols := t.symbols.modify symbol.index fun s => { s with type?, params } }

/-- The scope around a scope. It has a smaller number, so that going outwards
ends. -/
def parentBelow? (t : SymbolTable) (scope : ScopeId) :
    Option { p : ScopeId // p.index < scope.index } :=
  ((t.scope? scope).bind Scope.parent?).bind fun p =>
    if h : p.index < scope.index then some ⟨p, h⟩ else none

end SymbolTable

end ScriptFront
