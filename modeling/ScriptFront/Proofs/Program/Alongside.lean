import ScriptFront.Proofs.Diagnostic.Analyses
import ScriptFront.Proofs.Program.Parts
import ScriptFront.Proofs.SymbolTable.Beside
import ScriptFront.Proofs.Tree.Fresh

/-!
# Declarations in two tables

A definition declares alike in all tables in which its name is free: it reports the same,
and the tables have the same behind what was there before. Each step makes the same addition
on both sides or on neither.
-/
namespace ScriptFront

open Site (NewScopes NewSymbols Within)
open SymbolTable (Beside)

variable {α β γ δ : Type} {σ τ : Site} {name : String} {t u : SymbolTable}

namespace Declaring

/-- From the tables `t` and `u` the runs report the same and leave tables that have the same
behind the sites. -/
def Alongside (σ τ : Site) (name : String) (t u : SymbolTable) (m : Declaring α)
    (m' : Declaring β) (Q : α → β → Prop) : Prop :=
  Reported.Agrees (fun a b => Beside σ τ name a.2 b.2 ∧ Q a.1 b.1) (m t) (m' u)

namespace Alongside

variable {m : Declaring α} {m' : Declaring β} {Q Q' : α → β → Prop} {R : γ → δ → Prop}

theorem pure {a : α} {b : β} (h : Beside σ τ name t u) (hQ : Q a b) :
    Alongside σ τ name t u (Pure.pure a) (Pure.pure b) Q := ⟨rfl, h, hQ⟩

theorem bind {f : α → Declaring γ} {f' : β → Declaring δ} (h : Alongside σ τ name t u m m' Q)
    (hf : ∀ a b t' u', Beside σ τ name t' u' → Q a b →
      Alongside σ τ name t' u' (f a) (f' b) R) :
    Alongside σ τ name t u (m >>= f) (m' >>= f') R :=
  Reported.Agrees.bind h fun a b hab => hf a.1 b.1 a.2 b.2 hab.1 hab.2

theorem bind_pure {f : α → γ} {f' : β → δ} (h : Alongside σ τ name t u m m' Q)
    (hf : ∀ a b, Q a b → R (f a) (f' b)) :
    Alongside σ τ name t u (m >>= fun a => Pure.pure (f a)) (m' >>= fun b => Pure.pure (f' b)) R :=
  h.bind fun _ _ _ _ h hQ => .pure h (hf _ _ hQ)

theorem lift_bind {ε : Type} {x : Reported ε} {f : ε → Declaring α} {f' : ε → Declaring β}
    (h : Alongside σ τ name t u (f x.value) (f' x.value) Q) :
    Alongside σ τ name t u (StateT.lift x >>= f) (StateT.lift x >>= f') Q :=
  ⟨congrArg _ h.diagnostics, h.value⟩

theorem report_bind {fault : Fault} {token : Token} {f : Unit → Declaring α}
    {f' : Unit → Declaring β} (h : Alongside σ τ name t u (f ()) (f' ()) Q) :
    Alongside σ τ name t u (report fault token >>= f) (report fault token >>= f') Q :=
  lift_bind h

theorem report_if {fault : Fault} {token : Token} {c c' : Prop} [Decidable c] [Decidable c']
    {f : Unit → Declaring α} {f' : Unit → Declaring β} (hc : c ↔ c')
    (h : Alongside σ τ name t u (f ()) (f' ()) Q) :
    Alongside σ τ name t u (if c then report fault token >>= f else f ())
      (if c' then report fault token >>= f' else f' ()) Q := by
  rw [if_congr hc rfl rfl]
  split_ifs
  · exact report_bind h
  · exact h

theorem add? {addition : SymbolTable → Option (α × SymbolTable)}
    {addition' : SymbolTable → Option (β × SymbolTable)} (h : Beside σ τ name t u)
    (hrel : Option.Rel (fun a b => Q a.1 b.1 ∧ Beside σ τ name a.2 b.2) (addition t)
      (addition' u)) :
    Alongside σ τ name t u (Declaring.add? addition) (Declaring.add? addition') (Option.Rel Q) := by
  unfold Alongside Declaring.add?
  generalize addition t = a? at hrel
  generalize addition' u = b? at hrel
  cases hrel with
  | none => exact .pure ⟨h, .none⟩
  | some hab => exact .pure ⟨hab.2, .some hab.1⟩

theorem setSignature {f : Unit → Declaring α} {f' : Unit → Declaring β} {i i' : SymbolId}
    {type? : Option TypeId} {params : List (String × Option TypeId)}
    (h : Alongside σ τ name (t.setSignature i type? params) (u.setSignature i' type? params)
      (f ()) (f' ()) Q) :
    Alongside σ τ name t u ((modifyThe SymbolTable fun t => t.setSignature i type? params) >>= f)
      ((modifyThe SymbolTable fun u => u.setSignature i' type? params) >>= f') Q :=
  h

end Alongside

/-! ## Names and scopes -/

variable (types : TypeTable) {s s' : ScopeId} {n : Token}

theorem newSymbol?_alongside (h : Beside σ τ name t u) (hs : Within σ τ name s s' n.text)
    (kind : SymbolKind) (type? : Option TypeId) :
    Alongside σ τ name t u (newSymbol? s kind n type?) (newSymbol? s' kind n type?)
      (Option.Rel (NewSymbols σ τ)) :=
  .add? h (h.addSymbol? hs rfl rfl)

theorem newVariable?_alongside (h : Beside σ τ name t u) (hs : Within σ τ name s s' n.text)
    (kind : SymbolKind) (type : TypeName) :
    Alongside σ τ name t u (newVariable? types s kind type n) (newVariable? types s' kind type n)
      (Option.Rel fun a b => a.1 = b.1 ∧ Option.Rel (NewSymbols σ τ) a.2 b.2) := by
  unfold newVariable?
  apply Alongside.lift_bind
  cases (Reported.ofExcept (types.resolveStorage type)).value with
  | none => exact .pure h .none
  | some resolved =>
      refine (newSymbol?_alongside h hs kind (some resolved)).bind fun a? b? t' u' h hab => ?_
      have hnone : a?.isNone = true ↔ b?.isNone = true := by cases hab <;> rfl
      exact .report_if hnone (.pure h (.some ⟨rfl, hab⟩))

theorem blockScope?_alongside {m : String} (h : Beside σ τ name t u)
    (hs : Within σ τ name s s' m) :
    Alongside σ τ name t u (blockScope? s m) (blockScope? s' m) (Option.Rel (NewScopes σ τ)) := by
  unfold blockScope?
  refine (Alongside.add? h (h.addSubScope? hs)).bind fun a? b? t' u' h hab => ?_
  cases hab with
  | none => exact ⟨rfl, h, h.sub_rel hs⟩
  | some hab => exact .pure h (.some hab)

end Declaring

open Declaring (Alongside)

/-! ## Statements -/

section
variable (types : TypeTable) {N : String → Prop} {s s' : ScopeId} {loops : ℕ}

theorem Stmt.declareAll_alongside {ss : List Stmt} (h : Beside σ τ name t u)
    (ih : ∀ r ∈ ss, ∀ {t u : SymbolTable}, Beside σ τ name t u →
      Alongside σ τ name t u (r.declare types s loops) (r.declare types s' loops)
        (Twin N (NewSymbols σ τ))) :
    Alongside σ τ name t u (declare.declareAll types s loops ss)
      (declare.declareAll types s' loops ss) (AllTwin N (NewSymbols σ τ)) := by
  induction ss generalizing t u with
  | nil => exact .pure h .nil
  | cons r rs ihs =>
      unfold declare.declareAll
      refine (ih r (by simp) h).bind fun _ _ _ _ h hr => ?_
      exact (ihs h fun r hr => ih r (by simp [hr])).bind_pure fun _ _ hrs => .cons hr hrs

theorem Declaring.block_alongside {openBrace : Token} {statements : List Stmt}
    (h : Beside σ τ name t u) (hs : Within σ τ name s s' (Stmt.blockScopeName openBrace))
    (hfresh : ∀ r ∈ statements, r.Fresh N)
    (ih : ∀ r ∈ statements, ∀ {t u : SymbolTable} {inner inner' : ScopeId},
      Beside σ τ name t u → NewScopes σ τ inner inner' →
      Alongside σ τ name t u (r.declare types inner loops) (r.declare types inner' loops)
        (Stmt.Twin N (NewSymbols σ τ))) :
    Alongside σ τ name t u (block types s loops openBrace statements)
      (block types s' loops openBrace statements) (Stmt.AllTwin N (NewSymbols σ τ)) := by
  refine (blockScope?_alongside h hs).bind fun a? b? t' u' h hab => ?_
  cases hab with
  | none => exact .pure h (.of_fresh fun r hr => (hfresh r hr).twin)
  | some hinner => exact Stmt.declareAll_alongside types h fun r hr _ _ h => ih r hr h hinner

theorem Stmt.declare_alongside {r : Stmt} (h : Beside σ τ name t u) (hs : NewScopes σ τ s s')
    (hr : r.Fresh N) :
    Alongside σ τ name t u (r.declare types s loops) (r.declare types s' loops)
      (Twin N (NewSymbols σ τ)) := by
  induction r using tree_induction generalizing t u s s' loops with
  | empty token => exact .pure h .empty
  | breakLoop token =>
      unfold declare
      exact .report_if Iff.rfl (.pure h .breakLoop)
  | whileLoop condition body token ih =>
      obtain ⟨hcondition, hbody⟩ := hr
      exact (ih h hs hbody).bind_pure fun _ _ hbody =>
        .whileLoop (condition.fresh_typeLiterals.mpr hcondition) hbody
  | ifThen condition thenBranch token ih =>
      obtain ⟨hcondition, hthen⟩ := hr
      exact (ih h hs hthen).bind_pure fun _ _ hthen =>
        .ifThen (condition.fresh_typeLiterals.mpr hcondition) hthen
  | ifThenElse condition thenBranch elseBranch token ihthen ihelse =>
      obtain ⟨hcondition, hthen, helse⟩ := hr
      refine (ihthen h hs hthen).bind fun _ _ _ _ h hthen => ?_
      exact (ihelse h hs helse).bind_pure fun _ _ helse =>
        .ifThenElse (condition.fresh_typeLiterals.mpr hcondition) hthen helse
  | block statements openBrace ih =>
      have hall := allFresh_iff.mp hr
      rw [declare_block, declare_block]
      refine Alongside.bind_pure (Declaring.block_alongside types h (.new hs) hall ?_)
        fun _ _ hss => .block hss
      exact fun r hmem _ _ _ _ h hinner => ih r hmem h hinner (hall r hmem)
  | assign target value =>
      exact .pure h (.assign hr.1 (value.fresh_typeLiterals.mpr hr.2))
  | returnValue value? token =>
      exact .pure h (.returnValue (Expr.fresh_typeOptional.mpr hr))
  | varDecl type n initializer? symbol? =>
      obtain ⟨rfl, hinitializer⟩ := hr
      refine (Declaring.newVariable?_alongside types h (.new hs) _ type).bind
        fun a? b? t' u' h hab => ?_
      cases hab with
      | none => exact .pure h (.varDecl .none hinitializer)
      | @some a b hab =>
          obtain ⟨type, symbol?⟩ := a
          obtain ⟨_, symbol?'⟩ := b
          obtain ⟨rfl, hsymbol⟩ : type = _ ∧ Option.Rel _ symbol? symbol?' := hab
          exact .pure h (.varDecl hsymbol (Expr.fresh_typeOptional.mpr hinitializer))
  | call callee args openParen =>
      exact .pure h (.call hr.1 (Expr.fresh_typeAll.mpr hr.2))

end

/-! ## Functions -/

namespace FnDef

variable (types : TypeTable) {N : String → Prop} {s s' : ScopeId} {f f' : FnDef}

/-- The functions differ in their bodies only. -/
def SameHead (f f' : FnDef) : Prop :=
  f' = { f with body := f'.body, openBrace := f'.openBrace }

theorem declareParam_alongside {p : Param} (h : Beside σ τ name t u) (hs : NewScopes σ τ s s')
    (function : String) :
    Alongside σ τ name t u (declareParam types s function p) (declareParam types s' function p)
      (fun a b => a.2 = b.2) := by
  unfold declareParam
  apply Alongside.lift_bind
  cases (Reported.ofExcept (types.resolveStorage p.type)).value with
  | none => exact .pure h rfl
  | some type =>
      refine (Declaring.newSymbol?_alongside h (.new hs) _ _).bind fun a? b? t' u' h hab => ?_
      cases hab with
      | none => exact .report_bind (.pure h rfl)
      | some => exact .pure h rfl

theorem declareParams_alongside {ps : List Param} (h : Beside σ τ name t u)
    (hs : NewScopes σ τ s s') (function : String) :
    Alongside σ τ name t u (declareParams types s function ps) (declareParams types s' function ps)
      (fun a b => a.2 = b.2) := by
  induction ps generalizing t u with
  | nil => exact .pure h rfl
  | cons p ps ih =>
      unfold declareParams
      refine (declareParam_alongside types h hs function).bind fun _ _ _ _ h hp => ?_
      exact (ih h).bind_pure fun _ _ hps => congrArg₂ (fun x y => Option.toList x ++ y) hp hps

/-- What is left of the functions `f` and `f'` when they are entered: their bodies, and
corresponding scopes if they have got any. -/
structure Entered (σ τ : Site) (f f' : FnDef) (a b : FnDef × Option ScopeId) : Prop where
  name : a.1.name = f.name
  name' : b.1.name = f.name
  body : a.1.body = f.body
  body' : b.1.body = f'.body
  openBrace : a.1.openBrace = f.openBrace
  openBrace' : b.1.openBrace = f'.openBrace
  symbol : a.1.symbol?.isSome = b.1.symbol?.isSome
  scopes : Option.Rel (NewScopes σ τ) a.2 b.2

theorem enter_alongside (h : Beside σ τ f.name.text t u) (hσ : σ.scope = .global)
    (hτ : τ.scope = .global) (hf : f.SameHead f') :
    Alongside σ τ f.name.text t u (f.enter types) (f'.enter types) (Entered σ τ f f') := by
  have houter : Within σ τ f.name.text .global .global f.name.text := .global hσ hτ
  rw [hf]
  unfold enter
  apply Alongside.lift_bind
  generalize (Reported.ofExcept (types.resolve f.returnType)).value = returnType?
  refine (Declaring.newSymbol?_alongside h houter _ _).bind fun i? i?' t₁ u₁ h hi => ?_
  cases hi with
  | none => exact .report_bind (.pure h ⟨rfl, rfl, rfl, rfl, rfl, rfl, rfl, .none⟩)
  | some hi =>
      refine (Alongside.add? h (h.addSubScope? houter)).bind fun s? s?' t₂ u₂ h hs => ?_
      cases hs with
      | none => exact .pure h ⟨rfl, rfl, rfl, rfl, rfl, rfl, rfl, .none⟩
      | some hs =>
          refine (Alongside.add? h (h.addSymbol? (.new hs) rfl rfl)).bind
            fun a? b? t₃ u₃ h hab => ?_
          have hnone : a?.isNone = true ↔ b?.isNone = true := by cases hab <;> rfl
          refine .report_if hnone ?_
          refine (declareParams_alongside types h hs f.name.text).bind fun a b t₄ u₄ h hab => ?_
          obtain ⟨params, signature⟩ := a
          obtain ⟨params', _⟩ := b
          obtain rfl : signature = _ := hab
          refine .setSignature (.pure (h.setSignature hi _ _) ?_)
          exact ⟨rfl, rfl, rfl, rfl, rfl, rfl, rfl, .some hs⟩

end FnDef

/-! ## Definitions -/

namespace Global

/-- What two runs leave of one definition of a name: a function has a symbol after both or
after neither, and the bodies differ in the symbols of variables. -/
inductive Twin (N : String → Prop) (S : SymbolId → SymbolId → Prop) (name : Token) :
    Global → Global → Prop
  | function {f f' : FnDef} : f.name = name → f'.name = name → f.openBrace = f'.openBrace →
      f.symbol?.isSome = f'.symbol?.isSome → Stmt.AllTwin N S f.body f'.body →
      Twin N S name (function f) (function f')
  | var {v v' : GlobalVar} : Twin N S name (var v) (var v')

theorem declare_alongside (types : TypeTable) {N : String → Prop} {g : Global}
    (h : Beside σ τ g.name.text t u) (hσ : σ.scope = .global) (hτ : τ.scope = .global)
    (hg : g.Fresh N) :
    Alongside σ τ g.name.text t u (g.declare types) (g.declare types)
      (Twin N (NewSymbols σ τ) g.name) := by
  cases g with
  | var v =>
      have houter : Within σ τ v.name.text .global .global v.name.text := .global hσ hτ
      unfold declare GlobalVar.declare
      dsimp only
      rw [map_eq_pure_bind, bind_assoc]
      refine (Declaring.newVariable?_alongside types h houter _ _).bind fun a? b? t' u' h hab => ?_
      cases hab with
      | none => exact .pure h .var
      | some => exact .pure h .var
  | function f =>
      rw [declare_function]
      have hsame : f.SameHead f := rfl
      refine (FnDef.enter_alongside types h hσ hτ hsame).bind fun a b t' u' h hab => ?_
      obtain ⟨f₁, scope?⟩ := a
      obtain ⟨f₂, scope?'⟩ := b
      have hbody := hab.body.trans hab.body'.symm
      have hbrace := hab.openBrace.trans hab.openBrace'.symm
      have hfresh : ∀ r ∈ f₁.body, r.Fresh N := hab.body ▸ hg.2
      have hscopes := hab.scopes
      dsimp only at hscopes hbody hbrace ⊢
      cases hscopes with
      | none =>
          refine .pure h (.function hab.name hab.name' hbrace hab.symbol ?_)
          exact hbody ▸ .of_fresh fun r hr => (hfresh r hr).twin
      | some hs =>
          dsimp only
          rw [← hbody, ← hbrace]
          refine (Declaring.block_alongside types h (.new hs) hfresh ?_).bind_pure
            fun ss ss' hss => .function hab.name hab.name' rfl hab.symbol hss
          exact fun r hr _ _ _ _ h hinner => Stmt.declare_alongside types h hinner (hfresh r hr)

end Global

end ScriptFront
