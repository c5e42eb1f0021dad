import Mathlib.Data.List.Forall2
import ScriptFront.Program.Checking
import ScriptFront.Proofs.Diagnostic.Analyses
import ScriptFront.Proofs.SymbolTable.Corresponding
import ScriptFront.Proofs.Tree.Fresh

/-!
# Typing against corresponding tables

A tree is bound and typed alike in corresponding scopes of two tables. What is left of it
differs in the numbers of symbols, and no message shows one: the same faults are reported
at the same places, and the same types are found.
-/
namespace ScriptFront

open Reported (Agrees)
open SymbolTable (Both Corresponds)

variable {I : ScopeId → ScopeId → Prop} {S : SymbolId → SymbolId → Prop} {N : String → Prop}
  {t u : SymbolTable} {s s' : ScopeId} {types : TypeTable} {a b : Expr}

theorem Symbol.meaning_eq_iff {x y : Symbol} : x.meaning = y.meaning ↔
    x.kind = y.kind ∧ x.declaration.position = y.declaration.position ∧ x.type? = y.type? ∧
      x.params.map Prod.snd = y.params.map Prod.snd := by
  simp only [meaning, Meaning.mk.injEq]

/-! ## Names -/

/-- The names are the same token with the same type, and stand for corresponding symbols. -/
structure Ident.Twin (S : SymbolId → SymbolId → Prop) (i j : Ident) : Prop where
  token : i.token = j.token
  type : i.type? = j.type?
  symbol : Option.Rel S i.symbol? j.symbol?

theorem Ident.bind_agrees {i : Ident} (h : Corresponds I S N t u) (hi : i.Fresh N)
    (hs : Both I s s') (preference : Preference) :
    Agrees (Ident.Twin S) (i.bind t s preference) (i.bind u s' preference) := by
  have hunbound : Ident.Twin S i i := ⟨rfl, rfl, hi.1 ▸ .none⟩
  have hfound := h.lookup_rel preference hs hi.2
  unfold Ident.bind
  generalize t.lookup? i.name preference s = id? at hfound
  generalize u.lookup? i.name preference s' = id?' at hfound
  cases hfound with
  | none => exact .report_bind (.pure hunbound)
  | some hid =>
      have hsymbol := h.symbol_rel hid
      dsimp only
      generalize t.symbol? _ = x? at hsymbol
      generalize u.symbol? _ = y? at hsymbol
      cases hsymbol with
      | none => exact .pure hunbound
      | some hxy =>
          obtain ⟨hkind, hplace, htype, -⟩ := Symbol.meaning_eq_iff.mp hxy
          dsimp only
          rw [hkind, hplace, htype]
          split_ifs
          · exact .report_bind (.pure hunbound)
          · exact .pure ⟨rfl, rfl, .some hid⟩

theorem Ident.Twin.symbol_rel {i j : Ident} (h : Corresponds I S N t u) (hi : i.Twin S j) :
    Option.Rel (fun x y : Symbol => x.meaning = y.meaning) (i.symbol?.bind t.symbol?)
      (j.symbol?.bind u.symbol?) := by
  have hsymbol := hi.symbol
  generalize i.symbol? = id? at hsymbol
  generalize j.symbol? = id?' at hsymbol
  cases hsymbol with
  | none => exact .none
  | some hid => exact h.symbol_rel hid

theorem Ident.Twin.valueType_eq {i j : Ident} {v? v?' : Option SymbolId}
    (h : Corresponds I S N t u) (hi : i.Twin S j) (hv : Option.Rel S v? v?') :
    i.valueType t v? = j.valueType u v?' := by
  have hname : i.name = j.name := congrArg Token.text hi.token
  have hsymbol := hi.symbol_rel h
  have hown := h.eq_iff_of_rel hv hi.symbol
  unfold valueType
  rw [hname, hi.token, hi.type]
  generalize i.symbol?.bind t.symbol? = x? at hsymbol
  generalize j.symbol?.bind u.symbol? = y? at hsymbol
  cases hsymbol with
  | none => rfl
  | some hxy =>
      dsimp only
      rw [(Symbol.meaning_eq_iff.mp hxy).1, if_congr hown rfl rfl]

/-! ## Expressions -/

/-- The trees have the same token, and the same type was found for both. -/
def Typed.Same (x y : Typed Expr) : Prop := x.1.token = y.1.token ∧ x.2 = y.2

theorem Expr.record_agrees {x y : Reported (Option TypeId)} (hfound : x = y)
    (h : a.token = b.token) : Agrees Typed.Same (x >>= fun type? => pure (a.record type?))
      (y >>= fun type? => pure (b.record type?)) := by
  refine .bind_eq hfound.symm fun type? => .pure ?_
  cases type? with
  | none => exact ⟨h, rfl⟩
  | some type => exact ⟨by simpa [record] using h, rfl⟩

/-- The expressions have the same token, and in both tables the same type is found with the
same reports. -/
structure Expr.TypedAlike (types : TypeTable) (S : SymbolId → SymbolId → Prop)
    (t u : SymbolTable) (a b : Expr) : Prop where
  token : a.token = b.token
  infer {v? v?' : Option SymbolId} : Option.Rel S v? v?' →
    Agrees Typed.Same (a.infer types t v?) (b.infer types u v?')

theorem Typing.arguments_eq {args args' : List (Typed Expr)}
    {params params' : List (String × Option TypeId)} (h : List.Forall₂ Typed.Same args args')
    (hparams : params.map Prod.snd = params'.map Prod.snd) (n : ℕ) :
    arguments types n args params = arguments types n args' params' := by
  induction h generalizing n params params' with
  | nil => rfl
  | @cons x y _ _ hxy _ ih =>
      obtain ⟨e, actual?⟩ := x
      obtain ⟨e', _⟩ := y
      obtain ⟨htoken, rfl⟩ : e.token = e'.token ∧ actual? = _ := hxy
      cases params with
      | nil =>
          obtain rfl := List.map_eq_nil_iff.mp hparams.symm
          rfl
      | cons p ps =>
          obtain ⟨p', ps', rfl, hp, hps⟩ := List.map_eq_cons_iff.mp hparams.symm
          obtain ⟨name, required?⟩ := p
          obtain ⟨name', _⟩ := p'
          obtain rfl : _ = required? := hp
          unfold arguments
          rw [ih hps.symm, htoken]

theorem Ident.Twin.call_eq {i j : Ident} {args args' : List (Typed Expr)}
    (h : Corresponds I S N t u) (hi : i.Twin S j) (hargs : List.Forall₂ Typed.Same args args') :
    Typing.call types t i args = Typing.call types u j args' := by
  have hname : i.name = j.name := congrArg Token.text hi.token
  have hsymbol := hi.symbol_rel h
  unfold Typing.call
  rw [hname, hi.token, hargs.length_eq]
  generalize i.symbol?.bind t.symbol? = x? at hsymbol
  generalize j.symbol?.bind u.symbol? = y? at hsymbol
  cases hsymbol with
  | none => rfl
  | @some x y hxy =>
      obtain ⟨hkind, -, htype, hparams⟩ := Symbol.meaning_eq_iff.mp hxy
      have hlength : x.params.length = y.params.length := by
        simpa using congrArg List.length hparams
      dsimp only
      rw [hkind, htype, hlength, Typing.arguments_eq hargs hparams]

theorem Expr.TypedAlike.inferAll {v? v?' : Option SymbolId} {es es' : List Expr}
    (h : List.Forall₂ (TypedAlike types S t u) es es') (hv : Option.Rel S v? v?') :
    Agrees (List.Forall₂ Typed.Same) (infer.inferAll types t v? es)
      (infer.inferAll types u v?' es') := by
  induction h with
  | nil => exact .pure .nil
  | cons he _ ih =>
      exact (he.infer hv).bind fun _ _ he => ih.bind_pure fun _ _ hes => .cons he hes

theorem Expr.bindAll_agrees {es : List Expr} (h : ∀ e ∈ es,
      Agrees (TypedAlike types S t u) (e.bindNames t s) (e.bindNames u s')) :
    Agrees (List.Forall₂ (TypedAlike types S t u)) (bindNames.bindAll t s es)
      (bindNames.bindAll u s' es) := by
  induction es with
  | nil => exact .pure .nil
  | cons e es ih =>
      refine (h e (by simp)).bind fun _ _ he => ?_
      exact (ih fun e he => h e (by simp [he])).bind_pure fun _ _ hes => .cons he hes

theorem Expr.bindNames_agrees (types : TypeTable) {e : Expr} (h : Corresponds I S N t u)
    (hs : Both I s s') (he : e.Fresh N) :
    Agrees (TypedAlike types S t u) (e.bindNames t s) (e.bindNames u s') := by
  induction e using tree_induction with
  | literal value token type? => exact .pure ⟨rfl, fun _ => .pure ⟨rfl, rfl⟩⟩
  | ident i =>
      refine (Ident.bind_agrees h he hs .value).bind_pure fun i j hi => ⟨hi.token, fun hv => ?_⟩
      exact record_agrees (hi.valueType_eq h hv) hi.token
  | unary op operand token type? ih =>
      refine (ih he).bind_pure fun a b hab => ⟨rfl, fun hv => ?_⟩
      refine (hab.infer hv).bind ?_
      rintro ⟨a, a?⟩ ⟨b, _⟩ ⟨htoken, rfl⟩
      exact record_agrees (congrArg (Typing.unary types op a?) htoken) rfl
  | binary op left right token type? ihleft ihright =>
      unfold Expr.bindNames
      refine (ihleft he.1).bind fun a b hab => ?_
      split_ifs with hop
      · refine .pure ⟨rfl, fun hv => ?_⟩
        unfold Expr.infer
        refine (hab.infer hv).bind ?_
        rintro ⟨a, a?⟩ ⟨b, _⟩ ⟨-, rfl⟩
        dsimp only
        rw [if_pos hop, if_pos hop]
        exact record_agrees rfl rfl
      · refine (ihright he.2).bind_pure fun c d hcd => ⟨rfl, fun hv => ?_⟩
        unfold Expr.infer
        refine (hab.infer hv).bind ?_
        rintro ⟨a, a?⟩ ⟨b, _⟩ ⟨-, rfl⟩
        dsimp only
        rw [if_neg hop, if_neg hop]
        refine (hcd.infer hv).bind ?_
        rintro ⟨c, c?⟩ ⟨d, _⟩ ⟨htoken, rfl⟩
        exact record_agrees (congrArg (Typing.binary types op a? c? token) htoken) rfl
  | call callee args openParen type? ih =>
      refine (Ident.bind_agrees h he.1 hs .function).bind fun i j hi => ?_
      have hargs := bindAll_agrees fun e hmem => ih e hmem (allFresh_iff.mp he.2 e hmem)
      refine hargs.bind_pure fun es es' hes => ⟨hi.token, fun hv => ?_⟩
      refine (TypedAlike.inferAll hes hv).bind fun args args' hargs => ?_
      exact record_agrees (hi.call_eq h hargs) hi.token

/-! ## Parts of statements -/

theorem SymbolTable.Corresponds.returnType?_eq (h : Corresponds I S N t u) (hs : I s s') :
    Checking.returnType? t s = Checking.returnType? u s' := by
  have hresult := h.lookup_result_rel hs
  unfold Checking.returnType?
  generalize t.lookup? Symbol.returnValueName .any s = id? at hresult
  generalize u.lookup? Symbol.returnValueName .any s' = id?' at hresult
  cases hresult with
  | none => rfl
  | some hid =>
      have hsymbol := h.symbol_rel hid
      change (t.symbol? _).bind Symbol.type? = (u.symbol? _).bind Symbol.type?
      generalize t.symbol? _ = x? at hsymbol
      generalize u.symbol? _ = y? at hsymbol
      cases hsymbol with
      | none => rfl
      | some hxy => exact (Symbol.meaning_eq_iff.mp hxy).2.2.1

namespace Checking

theorem condition_agrees (statement : String) (token : Token)
    (h : a.TypedAlike types S t u b) : Agrees (fun _ _ => True)
      (condition types t statement token a) (condition types u statement token b) := by
  refine (h.infer .none).bind ?_
  rintro ⟨a, a?⟩ ⟨b, _⟩ ⟨-, rfl⟩
  cases a? with
  | none => exact .pure trivial
  | some type =>
      dsimp only
      split_ifs
      · exact .pure trivial
      · exact .report_bind (.pure trivial)

theorem returned_agrees {value? value?' : Option Expr} (h : Corresponds I S N t u) (hs : I s s')
    (token : Token) (hvalue : Option.Rel (Expr.TypedAlike types S t u) value? value?') :
    Agrees (fun _ _ => True) (returned types t s token value?)
      (returned types u s' token value?') := by
  unfold returned
  rw [h.returnType?_eq hs]
  cases returnType? u s' with
  | none => cases hvalue <;> exact .pure trivial
  | some expected =>
      cases hvalue with
      | none =>
          dsimp only
          split_ifs
          · exact .pure trivial
          · exact .report_bind (.pure trivial)
      | some hvalue =>
          refine (hvalue.infer .none).bind ?_
          rintro ⟨a, a?⟩ ⟨b, _⟩ ⟨-, rfl⟩
          cases a? with
          | none => exact .pure trivial
          | some received =>
              dsimp only
              split_ifs
              · exact .pure trivial
              · exact .report_bind (.pure trivial)

end Checking

theorem Stmt.bindOptional_agrees (types : TypeTable) {value? : Option Expr}
    (h : Corresponds I S N t u) (hs : Both I s s') (hvalue : ∀ value ∈ value?, value.Fresh N) :
    Agrees (Option.Rel (Expr.TypedAlike types S t u)) (check.bindOptional t s value?)
      (check.bindOptional u s' value?) := by
  cases value? with
  | none => exact .pure .none
  | some value =>
      exact (Expr.bindNames_agrees types h hs (hvalue value rfl)).bind_pure fun _ _ h => .some h

end ScriptFront
