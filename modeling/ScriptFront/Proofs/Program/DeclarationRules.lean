import Mathlib.Tactic.Common
import ScriptFront.Diagnostic.Reported
import ScriptFront.Program.Basic
import ScriptFront.TypeTable

/-!
# Faults of declarations

Which declarations of a program are faulty can be read off its text. A declaration is at
fault if its type is not known or has no values, and else if its name was declared before
in the same place: among the definitions of the program, among the parameters of a
function, or directly in a block, to which unbraced branches and loop bodies belong. A
declaration whose type is at fault takes no name. Of a function whose name is taken, nothing
inside is looked at. A `break` is at fault in no loop.
-/
namespace ScriptFront

namespace TypeTable

variable (types : TypeTable)

/-- What is registered under a name. -/
def named? (name : String) : Option TypeInfo := types.types.find? fun info => info.name == name

/-- What is wrong with the type of a result. -/
def resultFault? (written : TypeName) : Option Diagnostic :=
  match types.named? written.fullName with
  | none => some ⟨.unknownType written.fullName, written.token.position⟩
  | some _ => none

/-- What is wrong with the type of a variable, which must have values. -/
def storageFault? (written : TypeName) : Option Diagnostic :=
  match types.named? written.fullName with
  | none => some ⟨.unknownType written.fullName, written.token.position⟩
  | some info =>
    if info.size = 0 then some ⟨.invalidType written.fullName, written.token.position⟩ else none

/-- The names that the declaration of a variable takes. -/
def namesTaken (written : TypeName) (name : Token) : List String :=
  match types.storageFault? written with
  | some _ => []
  | none => [name.text]

/-- What is wrong with the declaration of a variable behind `earlier` names, one of which it
must not have. -/
def variableFaults (earlier : List String) (clash : Fault) (written : TypeName) (name : Token) :
    List Diagnostic :=
  match types.storageFault? written with
  | some d => [d]
  | none => if name.text ∈ earlier then [⟨clash, name.position⟩] else []

end TypeTable

namespace Stmt

/-- The names that a statement takes in the block that it stands in. -/
def namesTaken (types : TypeTable) : Stmt → List String
  | whileLoop _ body _ => body.namesTaken types
  | ifThen _ thenBranch _ => thenBranch.namesTaken types
  | ifThenElse _ thenBranch elseBranch _ =>
      thenBranch.namesTaken types ++ elseBranch.namesTaken types
  | varDecl type name _ _ => types.namesTaken type name
  | _ => []

/-- What is wrong with the declarations in a statement and with its breaks. The names are
those declared earlier in the same block. -/
def declarationFaults (types : TypeTable) (inLoop : Bool) (earlier : List String) :
    Stmt → List Diagnostic
  | breakLoop token => if !inLoop then [⟨.breakOutsideLoop, token.position⟩] else []
  | whileLoop _ body _ => body.declarationFaults types true earlier
  | ifThen _ thenBranch _ => thenBranch.declarationFaults types inLoop earlier
  | ifThenElse _ thenBranch elseBranch _ =>
      thenBranch.declarationFaults types inLoop earlier ++
        elseBranch.declarationFaults types inLoop (earlier ++ thenBranch.namesTaken types)
  | block statements _ => faultsAll inLoop [] statements
  | varDecl type name _ _ =>
      types.variableFaults earlier (.variableAlreadyDeclared name.text) type name
  | _ => []
where
  faultsAll (inLoop : Bool) (earlier : List String) : List Stmt → List Diagnostic
    | [] => []
    | s :: ss =>
        s.declarationFaults types inLoop earlier ++
          faultsAll inLoop (earlier ++ s.namesTaken types) ss

end Stmt

namespace FnDef

def paramFaults (types : TypeTable) (function : String) (earlier : List String) :
    List Param → List Diagnostic
  | [] => []
  | p :: ps =>
      types.variableFaults earlier (.parameterAlreadyDeclared p.name.text function) p.type p.name ++
        paramFaults types function (earlier ++ types.namesTaken p.type p.name) ps

/-- What is wrong with the parameters of a function and with the declarations in its body. -/
def insideFaults (types : TypeTable) (f : FnDef) : List Diagnostic :=
  paramFaults types f.name.text [] f.params ++
    Stmt.declarationFaults.faultsAll types false [] f.body

/-- What is wrong with the declarations of a function behind `earlier` definitions. -/
def declarationFaults (types : TypeTable) (earlier : List String) (f : FnDef) :
    List Diagnostic :=
  (types.resultFault? f.returnType).toList ++
    if f.name.text ∈ earlier then [⟨.functionAlreadyDeclared f.name.text, f.name.position⟩]
    else f.insideFaults types

end FnDef

namespace Global

def namesTaken (types : TypeTable) : Global → List String
  | function f => [f.name.text]
  | var v => types.namesTaken v.type v.name

/-- What is wrong with the declarations of a definition. -/
def declarationFaults (types : TypeTable) (earlier : List String) : Global → List Diagnostic
  | function f => f.declarationFaults types earlier
  | var v => types.variableFaults earlier (.variableAlreadyDeclared v.name.text) v.type v.name

def faultsAll (types : TypeTable) (earlier : List String) : List Global → List Diagnostic
  | [] => []
  | g :: gs => g.declarationFaults types earlier ++
      faultsAll types (earlier ++ g.namesTaken types) gs

end Global

/-- What is wrong with the declarations of a program, in its order. -/
def Program.declarationFaults (types : TypeTable) (p : Program) : List Diagnostic :=
  Global.faultsAll types [] p.globals

/-! ## Types -/

namespace TypeTable

variable {types : TypeTable} {written : TypeName}

theorem named?_eq (types : TypeTable) (name : String) :
    types.named? name = (types.get? name).bind types.info? := by
  unfold named? get? info?
  induction types.types with
  | nil => rfl
  | cons info infos ih =>
      rw [List.find?_cons, List.findIdx?_cons]
      cases info.name == name with
      | true => rfl
      | false =>
          cases h : infos.findIdx? fun info => info.name == name with
          | none => simpa [h] using ih
          | some i => simpa [h] using ih

theorem named?_of_get? {name : String} {type : TypeId} (h : types.get? name = some type) :
    ∃ info, types.info? type = some info ∧ types.named? name = some info := by
  have hlt : type.index < types.types.length := by
    obtain ⟨i, hi, rfl⟩ := Option.map_eq_some_iff.mp h
    exact (List.findIdx?_eq_some_iff_getElem.mp hi).1
  have hinfo : types.info? type = some types.types[type.index] := List.getElem?_eq_getElem hlt
  exact ⟨_, hinfo, by rw [named?_eq, h, Option.bind_some, hinfo]⟩

theorem diagnostics_resolve (types : TypeTable) (written : TypeName) :
    (Reported.ofExcept (types.resolve written)).diagnostics =
      (types.resultFault? written).toList := by
  unfold resolve resultFault?
  cases h : types.get? written.fullName with
  | none =>
      rw [named?_eq, h]
      rfl
  | some type =>
      obtain ⟨info, -, hnamed⟩ := named?_of_get? h
      rw [hnamed]
      rfl

theorem resolveStorage_cases (types : TypeTable) (written : TypeName) :
    (∃ d, types.resolveStorage written = .error d ∧ types.storageFault? written = some d) ∨
      ∃ type, types.resolveStorage written = .ok type ∧ types.storageFault? written = none := by
  unfold resolveStorage resolve storageFault?
  cases h : types.get? written.fullName with
  | none =>
      rw [named?_eq, h]
      exact .inl ⟨_, rfl, rfl⟩
  | some type =>
      obtain ⟨info, hinfo, hnamed⟩ := named?_of_get? h
      rw [hnamed]
      dsimp only [bind, Except.bind]
      rw [hinfo, Option.map_some, Option.getD_some]
      split_ifs
      · exact .inl ⟨_, rfl, rfl⟩
      · exact .inr ⟨type, rfl, rfl⟩

end TypeTable

end ScriptFront
