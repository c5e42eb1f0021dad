import ScriptFront.Diagnostic.Basic
import ScriptFront.Stmt.Basic

/-!
# Types

A type table lists the registered types; the number of a type is its place in
the list, and two types are the same if their numbers are. A name is registered
at most once. An array type is registered under the name of its element type
followed by brackets. A type of size zero has no values.
-/
namespace ScriptFront

/-- A registered type. Only an array has an element type. -/
structure TypeInfo where
  name : String
  size : Nat
  element? : Option TypeId := none
deriving DecidableEq, Repr

/-- The type is an array. -/
def TypeInfo.isArray (i : TypeInfo) : Bool := i.element?.isSome

/-- The registered types in the order of their registration. -/
structure TypeTable where
  types : List TypeInfo
deriving DecidableEq, Repr

namespace TypeTable

def empty : TypeTable := ⟨[]⟩

def size (t : TypeTable) : Nat := t.types.length

def get? (t : TypeTable) (name : String) : Option TypeId :=
  (t.types.findIdx? fun i => i.name == name).map TypeId.mk

def info? (t : TypeTable) (type : TypeId) : Option TypeInfo := t.types[type.index]?

def nameOf (t : TypeTable) (type : TypeId) : String :=
  ((t.info? type).map TypeInfo.name).getD ""

def element? (t : TypeTable) (type : TypeId) : Option TypeId :=
  (t.info? type).bind TypeInfo.element?

/-- Registers a type, unless its name is taken. Both ways it answers the type of
that name. -/
def insert (t : TypeTable) (info : TypeInfo) : TypeId × TypeTable :=
  match t.get? info.name with
  | some type => (type, t)
  | none => (⟨t.size⟩, ⟨t.types ++ [info]⟩)

/-- Registers a type that is no array. -/
def add (t : TypeTable) (name : String) (size : Nat) : TypeId × TypeTable :=
  t.insert { name, size }

/-- Registers the arrays of a type. An array is a reference, whatever its
elements are. -/
def addArray (t : TypeTable) (element : TypeId) : TypeId × TypeTable :=
  t.insert ⟨t.nameOf element ++ "[]", 4, some element⟩

def addWithArray (t : TypeTable) (name : String) (size : Nat) : TypeTable :=
  let (type, t) := t.add name size
  (t.addArray type).2

/-- The types of the language: `void`, four types of values, and their arrays. -/
def primitives : TypeTable :=
  ((((empty.add "void" 0).2.addWithArray "int" 4).addWithArray "float" 4).addWithArray
    "bool" 1).addWithArray "string" 4

def isNamed (t : TypeTable) (name : String) (type : TypeId) : Bool :=
  t.get? name == some type

/-- The type is one of the two types of numbers. -/
def isNumeric (t : TypeTable) (type : TypeId) : Bool :=
  t.isNamed "int" type || t.isNamed "float" type

/-- The type that is written in a program. -/
def resolve (t : TypeTable) (written : TypeName) : Except Diagnostic TypeId :=
  match t.get? written.fullName with
  | some type => .ok type
  | none => .error ⟨.unknownType written.fullName, written.token.position⟩

/-- The type that is written for a variable, which must have values. -/
def resolveStorage (t : TypeTable) (written : TypeName) : Except Diagnostic TypeId := do
  let type ← t.resolve written
  if ((t.info? type).map TypeInfo.size).getD 0 = 0 then
    throw ⟨.invalidType written.fullName, written.token.position⟩
  return type

end TypeTable

end ScriptFront
