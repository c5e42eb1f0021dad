import ScriptFront.Outline
import ScriptFront.Proofs.Program.Parts
import ScriptFront.Proofs.SymbolTable.Additions

/-!
# Analyses with a cursor

The analyses hand the scope of a statement down to it. They can be run instead with one
cursor that stands in a scope: entering a function or a block moves it inwards, and
leaving moves it outwards again. What is done on leaving does not know whether the node
was entered. A function is remembered on a stack; a block was entered if the scope under
the cursor has its name. The cursor also counts loops, and writes down where it was.
-/
namespace ScriptFront

/-! ## The cursor -/

/-- When a walk looks at a node: in front of it, inside of it, or behind it. -/
inductive Moment where
  | reached | entered | left
deriving DecidableEq, Repr

/-- A node, told by its kind and its token, and the scope in which a walk was there. -/
structure Stop where
  kind : NodeKind
  token : Token
  moment : Moment
  scope : ScopeId
deriving DecidableEq, Repr

/-- Where a walk is: its scope, whether each function around it was entered, and the
number of loops around it. It is remembered whether more loops were left than entered,
and where the walk was before. -/
structure Cursor where
  current : ScopeId := .global
  functions : List Bool := []
  loops : Nat := 0
  underflow : Bool := false
  stops : List Stop := []
deriving DecidableEq, Repr

namespace Cursor

/-- Writes down more stops. -/
def noting (stops : List Stop) (c : Cursor) : Cursor := { c with stops := c.stops ++ stops }

/-- Writes down where the walk is. -/
def note (kind : NodeKind) (token : Token) (moment : Moment) (c : Cursor) : Cursor :=
  c.noting [⟨kind, token, moment, c.current⟩]

/-- Goes to the scope around, if there is one. -/
def leaveScope (t : SymbolTable) (c : Cursor) : Cursor :=
  { c with current := (t.parent? c.current).getD c.current }

/-- Goes into the scope of a function, if it has one. -/
def enterFunction (scope? : Option ScopeId) (c : Cursor) : Cursor :=
  { c with current := scope?.getD c.current, functions := scope?.isSome :: c.functions }

/-- Leaves the scope of a function that was entered. -/
def leaveFunction (t : SymbolTable) (c : Cursor) : Cursor :=
  match c.functions with
  | [] => c
  | entered :: functions =>
    let c := { c with functions }
    if entered then c.leaveScope t else c

/-- Goes into the scope of a block, if it has one. -/
def enterBlock (scope? : Option ScopeId) (c : Cursor) : Cursor :=
  { c with current := scope?.getD c.current }

/-- Leaves the scope of a block if the cursor stands in a scope of its name. -/
def leaveBlock (t : SymbolTable) (name : String) (c : Cursor) : Cursor :=
  if t.name? c.current = some name then c.leaveScope t else c

def enterLoop (c : Cursor) : Cursor := { c with loops := c.loops + 1 }

/-- Counts a loop back. -/
def leaveLoop (c : Cursor) : Cursor :=
  { c with loops := c.loops - 1, underflow := c.underflow || c.loops == 0 }

section
variable (c : Cursor) (ℓ ℓ' : List Stop)

@[simp] theorem current_noting : (c.noting ℓ).current = c.current := rfl

@[simp] theorem loops_noting : (c.noting ℓ).loops = c.loops := rfl

@[simp] theorem noting_noting : (c.noting ℓ).noting ℓ' = c.noting (ℓ ++ ℓ') := by
  simp only [noting, List.append_assoc]

@[simp] theorem noting_nil : c.noting [] = c := by
  simp only [noting, List.append_nil]

end

end Cursor

/-! ## Walks -/

/-- A computation of an analysis that moves a cursor. -/
abbrev Walking := StateT Cursor Declaring

namespace Walking

/-- The symbol table as it is. -/
def table : Walking SymbolTable := fun c t => pure ((t, c), t)

def note (kind : NodeKind) (token : Token) (moment : Moment) : Walking Unit :=
  modify (Cursor.note kind token moment)

/-- A walk over a node, which is written down in front of the node and behind it. -/
def within (kind : NodeKind) (token : Token) (inside : Walking α) : Walking α := do
  note kind token .reached
  let a ← inside
  note kind token .left
  return a

end Walking

/-- What an analysis does at the nodes of a tree, apart from moving the cursor. A
function or a block is entered if there is a scope for it. Conditions are looked at
before and after what depends on them. A statement without statements inside is
analysed in the scope of the cursor. -/
structure Pass where
  enterFunction : FnDef → Declaring (FnDef × Option ScopeId)
  enterBlock : ScopeId → String → Declaring (Option ScopeId)
  enterLoop : Cursor → Cursor
  leaveLoop : Cursor → Cursor
  condition : ScopeId → Expr → Declaring Expr
  leaveCondition : String → Token → Expr → Declaring Expr
  simple : ScopeId → Nat → Stmt → Declaring Stmt
  globalVar : ScopeId → GlobalVar → Declaring GlobalVar

/-- The kind of node of a statement. -/
def Stmt.nodeKind : Stmt → NodeKind
  | empty _ => .empty
  | breakLoop _ => .breakLoop
  | whileLoop _ _ _ => .whileLoop
  | ifThen _ _ _ => .ifThen
  | ifThenElse _ _ _ _ => .ifThenElse
  | block _ _ => .block
  | assign _ _ => .assign
  | returnValue _ _ => .returnValue
  | varDecl _ _ _ _ => .varDecl
  | call _ _ _ => .callStmt

/-- Walks over a block: its statements are walked over if there is a scope for it. -/
def Walking.block (pass : Pass) (openBrace : Token) (statements : List Stmt)
    (inside : Walking (List Stmt)) : Walking (List Stmt) :=
  within .block openBrace do
    let c ← get
    let scope? ← pass.enterBlock c.current (Stmt.blockScopeName openBrace)
    modify (Cursor.enterBlock scope?)
    let statements ← match scope? with
      | none => pure statements
      | some _ => do
        note .block openBrace .entered
        inside
    let t ← table
    modify (Cursor.leaveBlock t (Stmt.blockScopeName openBrace))
    return statements

def Stmt.walk (pass : Pass) : Stmt → Walking Stmt
  | whileLoop condition body token => Walking.within .whileLoop token do
    modify pass.enterLoop
    let c ← get
    let condition ← pass.condition c.current condition
    let body ← body.walk pass
    let condition ← pass.leaveCondition "while" token condition
    modify pass.leaveLoop
    return whileLoop condition body token
  | ifThen condition thenBranch token => Walking.within .ifThen token do
    let c ← get
    let condition ← pass.condition c.current condition
    let thenBranch ← thenBranch.walk pass
    let condition ← pass.leaveCondition "if" token condition
    return ifThen condition thenBranch token
  | ifThenElse condition thenBranch elseBranch token => Walking.within .ifThenElse token do
    let c ← get
    let condition ← pass.condition c.current condition
    let thenBranch ← thenBranch.walk pass
    let elseBranch ← elseBranch.walk pass
    let condition ← pass.leaveCondition "if-else" token condition
    return ifThenElse condition thenBranch elseBranch token
  | block statements openBrace => do
    let statements ← Walking.block pass openBrace statements (walkAll statements)
    return block statements openBrace
  | s => Walking.within s.nodeKind s.token do
    let c ← get
    pass.simple c.current c.loops s
where
  walkAll : List Stmt → Walking (List Stmt)
    | [] => return []
    | s :: ss => do
      let s ← s.walk pass
      let ss ← walkAll ss
      return s :: ss

def Global.walk (pass : Pass) : Global → Walking Global
  | function f => Walking.within .fnDef f.name do
    let (f, scope?) ← pass.enterFunction f
    modify (Cursor.enterFunction scope?)
    let f ← match scope? with
      | none => pure f
      | some _ => do
        Walking.note .fnDef f.name .entered
        let body ← Walking.block pass f.openBrace f.body (Stmt.walk.walkAll pass f.body)
        pure { f with body }
    let t ← Walking.table
    modify (Cursor.leaveFunction t)
    return function f
  | var v => Walking.within .globalVar v.name do
    let c ← get
    let v ← pass.globalVar c.current v
    return var v

def Global.walkAll (pass : Pass) : List Global → Walking (List Global)
  | [] => return []
  | g :: gs => do
    let g ← g.walk pass
    let gs ← walkAll pass gs
    return g :: gs

def Program.walk (pass : Pass) (p : Program) : Walking Program := do
  let globals ← Global.walkAll pass p.globals
  return ⟨globals⟩

/-! ## The two analyses -/

def GlobalVar.declareIn (types : TypeTable) (scope : ScopeId) (v : GlobalVar) :
    Declaring GlobalVar := do
  match ← Declaring.newVariable? types scope .globalVariable v.type v.name with
  | none => return v
  | some (type, symbol?) => return { v with type, symbol? }

/-- The first analysis opens scopes, and counts loops. -/
def Pass.first (types : TypeTable) : Pass where
  enterFunction f := f.enter types
  enterBlock := Declaring.blockScope?
  enterLoop := Cursor.enterLoop
  leaveLoop := Cursor.leaveLoop
  condition _ e := return e.typeLiterals types
  leaveCondition _ _ e := return e
  simple scope loops s := s.declare types scope loops
  globalVar scope v := v.declareIn types scope

/-- A computation that reads the symbol table and does not change it. -/
def Declaring.reading (f : SymbolTable → Reported α) : Declaring α :=
  fun t => ⟨((f t).value, t), (f t).diagnostics⟩

/-- The second analysis finds the scopes again by their names. -/
def Pass.second (types : TypeTable) : Pass where
  enterFunction f := .reading fun t => return (f, f.scope? t)
  enterBlock scope name := .reading fun t => return t.subScope? scope name
  enterLoop := id
  leaveLoop := id
  condition scope e := .reading fun t => e.bindNames t scope
  leaveCondition statement token e :=
    .reading fun t => Checking.condition types t statement token e
  simple scope _ s := .reading fun t => s.check types t scope
  globalVar _ v := return v

end ScriptFront
