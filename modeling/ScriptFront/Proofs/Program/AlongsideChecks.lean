import ScriptFront.Proofs.Program.Parts
import ScriptFront.Proofs.Typing.Corresponding

/-!
# Checks in two tables

What declarations have left of one function in two tables is checked alike, if the tables
correspond in the scopes of the function. Blocks lead into corresponding scopes, and in
these the parts of statements are typed alike.
-/
namespace ScriptFront

open Reported (Agrees)
open SymbolTable (Corresponds)

variable {I : ScopeId → ScopeId → Prop} {S S₀ : SymbolId → SymbolId → Prop} {N : String → Prop}
  {t u : SymbolTable} {s s' : ScopeId} {types : TypeTable}

namespace Stmt

/-- The symbols of variables in the statements correspond, if `S₀` relates them. -/
def Refines (S₀ S : SymbolId → SymbolId → Prop) (symbols : List SymbolId) : Prop :=
  ∀ i ∈ symbols, ∀ i', S₀ i i' → S i i'

theorem Refines.left {is js : List SymbolId} (h : Refines S₀ S (is ++ js)) : Refines S₀ S is :=
  fun i hi => h i (List.mem_append_left _ hi)

theorem Refines.right {is js : List SymbolId} (h : Refines S₀ S (is ++ js)) : Refines S₀ S js :=
  fun i hi => h i (List.mem_append_right _ hi)

theorem check_assign_agrees {target : Ident} {value : Expr} {r' : Stmt}
    (h : Corresponds I S N t u) (hs : I s s') (hr : (assign target value).Twin N S₀ r') :
    Agrees (fun _ _ => True) ((assign target value).check types t s) (r'.check types u s') := by
  cases hr with
  | assign htarget hvalue =>
      refine (Ident.bind_agrees h htarget (.inr hs) .value).bind fun i j hi => ?_
      refine (Expr.bindNames_agrees types h (.inr hs) hvalue).bind fun a b hab => ?_
      refine .bind_eq (hi.valueType_eq h .none).symm fun expected? => ?_
      refine (hab.infer .none).bind ?_
      rintro ⟨a, a?⟩ ⟨b, _⟩ ⟨-, rfl⟩
      dsimp only
      rw [hi.token]
      exact .bind_eq rfl fun _ => .pure trivial

theorem check_varDecl_agrees {type : TypeName} {name : Token} {initializer? : Option Expr}
    {symbol? : Option SymbolId} {r' : Stmt} (h : Corresponds I S N t u) (hs : I s s')
    (hr : (varDecl type name initializer? symbol?).Twin N S₀ r')
    (hS : Refines S₀ S (varDecl type name initializer? symbol?).symbols) :
    Agrees (fun _ _ => True) ((varDecl type name initializer? symbol?).check types t s)
      (r'.check types u s') := by
  cases hr with
  | varDecl hsymbol hinitializer =>
      cases hsymbol with
      | none => exact .pure trivial
      | some hsymbol =>
          cases initializer? with
          | none => exact .pure trivial
          | some initializer =>
              have hbound :=
                Expr.bindNames_agrees types h (.inr hs) (hinitializer initializer rfl)
              refine hbound.bind fun a b hab => ?_
              cases type.resolved? with
              | none => exact .pure trivial
              | some expected =>
                  refine (hab.infer (.some (hS _ (by simp [symbols]) _ hsymbol))).bind ?_
                  rintro ⟨a, a?⟩ ⟨b, _⟩ ⟨-, rfl⟩
                  exact .bind_eq rfl fun _ => .pure trivial

theorem check_call_agrees {callee : Ident} {args : List Expr} {openParen : Token} {r' : Stmt}
    (h : Corresponds I S N t u) (hs : I s s') (hr : (call callee args openParen).Twin N S₀ r') :
    Agrees (fun _ _ => True) ((call callee args openParen).check types t s)
      (r'.check types u s') := by
  cases hr with
  | call hcallee hargs =>
      refine (Ident.bind_agrees h hcallee (.inr hs) .function).bind fun i j hi => ?_
      refine (Expr.bindAll_agrees fun e he =>
        Expr.bindNames_agrees types h (.inr hs) (hargs e he)).bind fun es es' hes => ?_
      refine (Expr.TypedAlike.inferAll hes .none).bind fun args args' hargs => ?_
      exact .bind_eq (hi.call_eq h hargs).symm fun _ => .pure trivial

theorem checkAll_agrees {ss ss' : List Stmt} (hss : AllTwin N S₀ ss ss')
    (hS : Refines S₀ S (symbols.symbolsAll ss))
    (ih : ∀ r ∈ ss, Refines S₀ S r.symbols → ∀ r', r.Twin N S₀ r' →
      Agrees (fun _ _ => True) (r.check types t s) (r'.check types u s')) :
    Agrees (fun _ _ => True) (check.checkAll types t s ss) (check.checkAll types u s' ss') := by
  induction ss generalizing ss' with
  | nil =>
      cases hss
      exact .pure trivial
  | cons r rs ihs =>
      cases hss with
      | cons hr hrs =>
          refine (ih r (by simp) hS.left _ hr).bind fun _ _ _ => ?_
          exact (ihs hrs hS.right fun r hr => ih r (by simp [hr])).bind_pure fun _ _ _ => trivial

theorem checkBlock_agrees {ss ss' : List Stmt} {inner? inner?' : Option ScopeId}
    (hinner : Option.Rel I inner? inner?') (hss : AllTwin N S₀ ss ss')
    (hS : Refines S₀ S (symbols.symbolsAll ss))
    (ih : ∀ r ∈ ss, ∀ {inner inner' : ScopeId}, I inner inner' → Refines S₀ S r.symbols →
      ∀ r', r.Twin N S₀ r' →
        Agrees (fun _ _ => True) (r.check types t inner) (r'.check types u inner')) :
    Agrees (fun _ _ => True) (Checking.block types t ss inner?)
      (Checking.block types u ss' inner?') := by
  cases hinner with
  | none => exact .pure trivial
  | some hinner => exact checkAll_agrees hss hS fun r hr => ih r hr hinner

theorem check_agrees {r r' : Stmt} (h : Corresponds I S N t u) (hs : I s s')
    (hr : r.Twin N S₀ r') (hS : Refines S₀ S r.symbols) :
    Agrees (fun _ _ => True) (r.check types t s) (r'.check types u s') := by
  induction r using tree_induction generalizing r' s s' with
  | empty | breakLoop =>
      cases hr
      exact .pure trivial
  | whileLoop condition body token ih =>
      cases hr with
      | whileLoop hcondition hbody =>
          exact (Expr.bindNames_agrees types h (.inr hs) hcondition).bind fun _ _ hcondition =>
            (ih hs hbody hS).bind fun _ _ _ =>
              (Checking.condition_agrees "while" token hcondition).bind_pure fun _ _ _ => trivial
  | ifThen condition thenBranch token ih =>
      cases hr with
      | ifThen hcondition hthen =>
          exact (Expr.bindNames_agrees types h (.inr hs) hcondition).bind fun _ _ hcondition =>
            (ih hs hthen hS).bind fun _ _ _ =>
              (Checking.condition_agrees "if" token hcondition).bind_pure fun _ _ _ => trivial
  | ifThenElse condition thenBranch elseBranch token ihthen ihelse =>
      cases hr with
      | ifThenElse hcondition hthen helse =>
          exact (Expr.bindNames_agrees types h (.inr hs) hcondition).bind fun _ _ hcondition =>
            (ihthen hs hthen hS.left).bind fun _ _ _ => (ihelse hs helse hS.right).bind fun _ _ _ =>
              (Checking.condition_agrees "if-else" token hcondition).bind_pure fun _ _ _ => trivial
  | block statements openBrace ih =>
      cases hr with
      | block hss =>
          rw [check_block, check_block]
          refine (checkBlock_agrees (h.sub_rel hs) hss hS ?_).bind_pure fun _ _ _ => trivial
          exact fun r hmem _ _ hinner hS _ hr => ih r hmem hinner hr hS
  | assign => exact check_assign_agrees h hs hr
  | returnValue value? token =>
      cases hr with
      | returnValue hvalue =>
          exact (bindOptional_agrees types h (.inr hs) hvalue).bind fun _ _ hvalue =>
            (Checking.returned_agrees h hs token hvalue).bind_pure fun _ _ _ => trivial
  | varDecl => exact check_varDecl_agrees h hs hr hS
  | call => exact check_call_agrees h hs hr

end Stmt

theorem Global.check_agrees {f f' : FnDef} (h : Corresponds I S N t u)
    (hscope : Option.Rel I (f.scope? t) (f'.scope? u)) (hbrace : f.openBrace = f'.openBrace)
    (hbody : Stmt.AllTwin N S₀ f.body f'.body)
    (hS : Stmt.Refines S₀ S (Stmt.symbols.symbolsAll f.body)) :
    Agrees (fun _ _ => True) ((function f).check types t) ((function f').check types u) := by
  rw [check_function, check_function, hbrace]
  generalize f.scope? t = s? at hscope
  generalize f'.scope? u = s?' at hscope
  cases hscope with
  | none => exact .pure trivial
  | some hs =>
      refine (Stmt.checkBlock_agrees (h.sub_rel hs) hbody hS ?_).bind_pure fun _ _ _ => trivial
      exact fun r _ _ _ hinner hS _ hr => Stmt.check_agrees h hinner hr hS

end ScriptFront
