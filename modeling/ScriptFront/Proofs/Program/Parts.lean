import ScriptFront.Program.Checking
import ScriptFront.Program.Declarations
import ScriptFront.Proofs.SymbolTable.Additions

/-!
# The parts of the analyses

Both analyses do the same with a block that is a statement and with the body of a
function. A function is entered before its body is looked at: the first analysis
declares it and opens its scope, the second finds that scope again. A step of the first
analysis that reports nothing hands its answer and its table on to the next one.
-/
namespace ScriptFront

variable {types : TypeTable} {t u : SymbolTable} {scope : ScopeId} {loops : ℕ}

/-! ## Steps -/

namespace Declaring

theorem value_bind {m : Declaring α} {f : α → Declaring β} :
    ((m >>= f) t).value = (f (m t).value.1 (m t).value.2).value := rfl

theorem bind_of_silent {a : α} {m : Declaring α} {f : α → Declaring β}
    (hm : m t = ⟨(a, u), []⟩) : (m >>= f) t = f a u := by
  change m t >>= (fun r => f r.1 r.2) = f a u
  rw [hm]
  rfl

theorem add?_of_some {addition : SymbolTable → Option (α × SymbolTable)} {a : α}
    (h : addition t = some (a, u)) : add? addition t = ⟨(some a, u), []⟩ := by
  unfold add?
  rw [h]
  rfl

theorem add?_of_none {addition : SymbolTable → Option (α × SymbolTable)}
    (h : addition t = none) : add? addition t = ⟨(none, t), []⟩ := by
  unfold add?
  rw [h]
  rfl

/-- A block has a scope in the end, which was there or is opened. -/
theorem blockScope?_eq (hs : t.Known scope) (name : String) :
    ∃ inner t', blockScope? scope name t = ⟨(some inner, t'), []⟩ ∧
      (t' = t ∧ t.subScope? scope name = some inner ∨ t.Opens scope name inner t') := by
  unfold blockScope?
  cases hadd : t.addSubScope? scope name with
  | some a =>
      refine ⟨a.1, a.2, ?_, .inr (SymbolTable.opens_of_addSubScope? hadd)⟩
      rw [bind_of_silent (add?_of_some hadd)]
      rfl
  | none =>
      obtain ⟨inner, hinner⟩ := hs.addSubScope? hadd
      refine ⟨inner, t, ?_, .inl ⟨rfl, hinner⟩⟩
      rw [bind_of_silent (add?_of_none hadd), ← hinner]
      rfl

end Declaring

/-! ## The first analysis -/

/-- What the first analysis does with the statements of a block. -/
def Declaring.blockInside (types : TypeTable) (loops : Nat) (statements : List Stmt) :
    Option ScopeId → Declaring (List Stmt)
  | none => return statements
  | some inner => Stmt.declare.declareAll types inner loops statements

/-- What the first analysis does with a block. -/
def Declaring.block (types : TypeTable) (scope : ScopeId) (loops : Nat) (openBrace : Token)
    (statements : List Stmt) : Declaring (List Stmt) :=
  blockScope? scope (Stmt.blockScopeName openBrace) >>= blockInside types loops statements

theorem Stmt.declare_block (statements : List Stmt) (openBrace : Token) :
    (block statements openBrace).declare types scope loops =
      Declaring.block types scope loops openBrace statements >>= fun statements =>
        pure (block statements openBrace) := by
  unfold declare Declaring.block
  rw [bind_assoc]
  congr 1
  funext inner?
  cases inner? with
  | none => rfl
  | some inner => rfl

theorem Declaring.block_value {openBrace : Token} {statements : List Stmt} {inner : ScopeId}
    {u : SymbolTable}
    (h : (blockScope? scope (Stmt.blockScopeName openBrace) t).value = (some inner, u)) :
    (Declaring.block types scope loops openBrace statements t).value =
      (Stmt.declare.declareAll types inner loops statements u).value := by
  rw [Declaring.block, value_bind, h]
  rfl

/-- Declares a function with its result and its parameters, and answers the scope
that it has opened. -/
def FnDef.enter (types : TypeTable) (f : FnDef) : Declaring (FnDef × Option ScopeId) := do
  let returnType? ← StateT.lift (Reported.ofExcept (types.resolve f.returnType))
  let f := { f with returnType := { f.returnType with resolved? := returnType? } }
  match ← Declaring.newSymbol? .global .function f.name returnType? with
  | none =>
    Declaring.report (.functionAlreadyDeclared f.name.text) f.name
    return (f, none)
  | some symbol =>
    let f := { f with symbol? := some symbol }
    match ← Declaring.add? fun t => t.addSubScope? .global f.name.text with
    | none => return (f, none)
    | some scope =>
      let returnValue : Symbol :=
        { name := Symbol.returnValueName, kind := .returnValue, declaration := f.name,
          type? := returnType? }
      if (← Declaring.add? fun t => t.addSymbol? scope returnValue).isNone then
        Declaring.report (.returnValueAlreadyDeclared f.name.text) f.name
      let (params, signature) ← declareParams types scope f.name.text f.params
      modify fun t => t.setSignature symbol returnType? signature
      return ({ f with params }, some scope)

theorem FnDef.declare_eq (f : FnDef) : f.declare types = f.enter types >>= fun r =>
    match r.2 with
    | none => pure r.1
    | some scope => Declaring.block types scope 0 r.1.openBrace r.1.body >>= fun body =>
        pure { r.1 with body } := by
  unfold declare enter declareInside Declaring.block
  simp only [bind_assoc]
  congr 1
  funext returnType?
  congr 1
  funext id?
  cases id? with
  | none => simp
  | some id =>
      dsimp only
      rw [bind_assoc]
      congr 1
      funext scope?
      cases scope? with
      | none => simp
      | some scope =>
          dsimp only
          rw [bind_assoc]
          congr 1
          funext entry?
          cases entry? with
          | none =>
              simp only [bind_assoc, pure_bind, Option.isNone_none, if_true]
              congr! 7
              funext inner?
              cases inner? <;> rfl
          | some entry =>
              simp only [bind_assoc, pure_bind, Option.isNone_some, Bool.false_eq_true, if_false]
              congr! 5
              funext inner?
              cases inner? <;> rfl

theorem Global.declare_function (f : FnDef) :
    (function f).declare types = f.enter types >>= fun r =>
      match r.2 with
      | none => pure (function r.1)
      | some scope => Declaring.block types scope 0 r.1.openBrace r.1.body >>= fun body =>
          pure (function { r.1 with body }) := by
  unfold declare
  dsimp only
  rw [map_eq_pure_bind, FnDef.declare_eq, bind_assoc]
  congr 1
  funext r
  cases r.2 with
  | none => rfl
  | some scope =>
      dsimp only
      rw [bind_assoc]
      rfl

/-! ## The second analysis -/

/-- What the second analysis does with a block. -/
def Checking.block (types : TypeTable) (t : SymbolTable) (statements : List Stmt) :
    Option ScopeId → Reported (List Stmt)
  | none => return statements
  | some inner => Stmt.check.checkAll types t inner statements

theorem Stmt.check_block (statements : List Stmt) (openBrace : Token) :
    (block statements openBrace).check types t scope =
      Checking.block types t statements (t.subScope? scope (blockScopeName openBrace)) >>=
        fun statements => pure (block statements openBrace) := by
  unfold check
  cases t.subScope? scope (blockScopeName openBrace) with
  | none => rfl
  | some inner => rfl

/-- The scope of a function that carries a symbol. -/
def FnDef.scope? (t : SymbolTable) (f : FnDef) : Option ScopeId :=
  f.symbol?.bind fun _ => t.subScope? .global f.name.text

theorem FnDef.scope?_of_isSome {f : FnDef} (h : f.symbol?.isSome) :
    f.scope? t = t.subScope? .global f.name.text := by
  obtain ⟨symbol, hsymbol⟩ := Option.isSome_iff_exists.mp h
  rw [scope?, hsymbol, Option.bind_some]

theorem FnDef.scope?_of_not_isSome {f : FnDef} (h : ¬ f.symbol?.isSome) : f.scope? t = none := by
  rw [scope?, Option.not_isSome_iff_eq_none.mp h, Option.bind_none]

theorem Global.check_function (f : FnDef) :
    (function f).check types t =
      match f.scope? t with
      | none => pure (function f)
      | some scope => Checking.block types t f.body
          (t.subScope? scope (Stmt.blockScopeName f.openBrace)) >>= fun body =>
            pure (function { f with body }) := by
  unfold check FnDef.check FnDef.scope?
  dsimp only
  cases f.symbol?.bind fun _ => t.subScope? .global f.name.text with
  | none => rfl
  | some scope =>
      dsimp only [Option.bind_some]
      cases t.subScope? scope (Stmt.blockScopeName f.openBrace) with
      | none => rfl
      | some inner =>
          dsimp only [Checking.block]
          rw [map_eq_pure_bind, bind_assoc]
          rfl

end ScriptFront
