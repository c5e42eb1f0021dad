import ScriptFront.Program.Checking
import ScriptFront.Proofs.SymbolTable.Alike
import ScriptFront.Proofs.Tree.Alike

/-!
# Analyses side by side

Two analyses go side by side if they give related values and report alike faults in
the same order. Binding and typing compare the places of tokens in one place only, where
a name is used above its declaration, and there related tokens compare alike.
-/
namespace ScriptFront

variable {α β γ δ : Type} {R D : Token → Token → Prop} {S : α → β → Prop} {T : γ → δ → Prop}

namespace Reported

/-- The values are related, and the reports are alike one by one. -/
structure Parallel (R D : Token → Token → Prop) (S : α → β → Prop) (x : Reported α)
    (y : Reported β) : Prop where
  value : S x.value y.value
  diagnostics : List.Forall₂ (Diagnostic.Alike R D) x.diagnostics y.diagnostics

namespace Parallel

variable {x : Reported α} {y : Reported β}

theorem pure {a : α} {b : β} (h : S a b) :
    Parallel R D S (Pure.pure a : Reported α) (Pure.pure b : Reported β) := ⟨h, .nil⟩

theorem bind {f : α → Reported γ} {g : β → Reported δ} (h : Parallel R D S x y)
    (hf : ∀ a b, S a b → Parallel R D T (f a) (g b)) : Parallel R D T (x >>= f) (y >>= g) where
  value := (hf _ _ h.value).value
  diagnostics := List.rel_append h.diagnostics (hf _ _ h.value).diagnostics

theorem bind_pure {f : α → γ} {g : β → δ} (h : Parallel R D S x y)
    (hf : ∀ a b, S a b → T (f a) (g b)) :
    Parallel R D T (x >>= fun a => Pure.pure (f a)) (y >>= fun b => Pure.pure (g b)) :=
  h.bind fun a b hab => .pure (hf a b hab)

theorem report {fault fault' : Fault} {t t' : Token} (ht : R t t')
    (hfault : fault.Alike D t fault') :
    Parallel R D (fun _ _ => True) (Reported.report fault t) (Reported.report fault' t') :=
  ⟨trivial, .cons (.intro ht hfault) .nil⟩

theorem report_bind {fault fault' : Fault} {t t' : Token} {f : Unit → Reported γ}
    {g : Unit → Reported δ} (ht : R t t') (hfault : fault.Alike D t fault')
    (h : Parallel R D T (f ()) (g ())) :
    Parallel R D T (Reported.report fault t >>= f) (Reported.report fault' t' >>= g) :=
  (report ht hfault).bind fun _ _ _ => h

theorem mono {S' : α → β → Prop} (h : Parallel R D S x y) (hS : ∀ a b, S a b → S' a b) :
    Parallel R D S' x y :=
  ⟨hS _ _ h.value, h.diagnostics⟩

end Parallel

end Reported

open Reported (Parallel)

/-- The trees are alike, and the types that were found for them are the same. -/
def Typed.Alike (R : Token → Token → Prop) (x y : Typed Expr) : Prop :=
  x.1.Alike R y.1 ∧ x.2 = y.2

namespace Expr.Alike

variable {e e' : Expr} (h : e.Alike R e')
include h

theorem token : R e.token e'.token := by
  cases h with
  | ident hi => exact hi.token
  | literal ht | unary _ ht | binary _ _ ht => exact ht
  | call hi => exact hi.token

theorem withType (type? : Option TypeId) : (e.withType type?).Alike R (e'.withType type?) := by
  cases h with
  | ident hi => exact .ident { hi with type := rfl }
  | literal ht => exact .literal ht
  | unary ha ht => exact .unary ha ht
  | binary ha hb ht => exact .binary ha hb ht
  | call hi has ht => exact .call hi has ht

theorem record (type? : Option TypeId) : Typed.Alike R (e.record type?) (e'.record type?) := by
  cases type? with
  | none => exact ⟨h, rfl⟩
  | some type => exact ⟨h.withType _, rfl⟩

end Expr.Alike

/-! ## Binding -/

section
variable {t t' : SymbolTable} {i j : Ident} {e e' : Expr} (hR : Token.Pairing R)
  (hD : ∀ s s', D s s' → R s s') (ht : t.Alike R D t') (hcomplete : t.Complete)
include hR hD ht hcomplete

theorem Ident.Alike.bind (hi : i.Alike R j) (scope : ScopeId) (preference : Preference) :
    Parallel R D (Ident.Alike R) (i.bind t scope preference) (j.bind t' scope preference) := by
  have hname : j.name = i.name := (hR.text_eq hi.token).symm
  unfold Ident.bind
  rw [hname, ← ht.lookup?_eq]
  cases hl : t.lookup? i.name preference scope with
  | none => exact .report_bind hi.token rfl (.pure hi)
  | some id =>
      obtain ⟨s, hlocal⟩ := SymbolTable.exists_local?_of_lookup? hl
      dsimp only
      have hid := ht.symbol id
      have hnamed := fun symbol => @SymbolTable.Complete.named t hcomplete s i.name id symbol hlocal
      generalize t.symbol? id = symbol? at hid hnamed
      generalize t'.symbol? id = symbol?' at hid
      cases hid with
      | none => exact .pure hi
      | @some symbol symbol' hs =>
          have hlt := hR.lt_iff hi.token (hD _ _ hs.declaration)
          dsimp only
          rw [← hs.kind, ← hs.type]
          by_cases hbefore : symbol.kind.isOrdered ∧ i.token.position < symbol.declaration.position
          · rw [if_pos hbefore, if_pos ⟨hbefore.1, hlt.mp hbefore.2⟩]
            have htext := (hs.declared hbefore.1).trans (hnamed symbol rfl)
            exact .report_bind hi.token
              ⟨rfl, _, _, hs.declaration, htext, hbefore.2, rfl, rfl⟩ (.pure hi)
          · rw [if_neg hbefore, if_neg fun h => hbefore ⟨h.1, hlt.mpr h.2⟩]
            exact .pure ⟨hi.token, rfl, rfl⟩

omit hR hD ht hcomplete in
theorem Expr.Alike.bindAll {scope : ScopeId} {es es' : List Expr}
    (h : List.Forall₂ (fun e e' =>
      Parallel R D (Expr.Alike R) (e.bindNames t scope) (e'.bindNames t' scope)) es es') :
    Parallel R D (List.Forall₂ (Expr.Alike R)) (bindNames.bindAll t scope es)
      (bindNames.bindAll t' scope es') := by
  induction h with
  | nil => exact .pure .nil
  | cons he _ ih =>
      exact he.bind fun _ _ he => ih.bind_pure fun _ _ hes => .cons he hes

theorem Expr.Alike.bindNames (h : e.Alike R e') (scope : ScopeId) :
    Parallel R D (Expr.Alike R) (e.bindNames t scope) (e'.bindNames t' scope) := by
  induction h using Expr.Alike.induction with
  | literal hv => exact .pure (.literal hv)
  | ident hi => exact (hi.bind hR hD ht hcomplete scope _).bind_pure fun _ _ hi => .ident hi
  | unary _ hop ih => exact ih.bind_pure fun _ _ ha => .unary ha hop
  | @binary op _ _ _ _ _ _ _ _ hb hop iha ihb =>
      unfold Expr.bindNames
      refine iha.bind fun _ _ ha => ?_
      split_ifs
      · exact .pure (.binary ha hb hop)
      · exact ihb.bind_pure fun _ _ hb => .binary ha hb hop
  | call hi _ hop ih =>
      have hargs := bindAll (ih.imp fun _ _ ⟨_, h⟩ => h)
      exact (hi.bind hR hD ht hcomplete scope _).bind fun _ _ hi =>
        hargs.bind_pure fun _ _ has => .call hi has hop

theorem Expr.Alike.bindArguments {es es' : List Expr} (h : List.Forall₂ (Expr.Alike R) es es')
    (scope : ScopeId) : Parallel R D (List.Forall₂ (Expr.Alike R)) (bindNames.bindAll t scope es)
      (bindNames.bindAll t' scope es') :=
  bindAll (h.imp fun _ _ he => he.bindNames hR hD ht hcomplete scope)

end

/-! ## Typing -/

section
variable {t t' : SymbolTable} {i j : Ident} {e e' : Expr} (hR : Token.Pairing R)
  (ht : t.Alike R D t') (types : TypeTable) (initializing? : Option SymbolId)

include ht in
/-- A name stands for alike symbols in alike tables, if it stands for one. -/
theorem Ident.Alike.rel_symbol (hi : i.Alike R j) :
    Option.Rel (Symbol.Alike D) (i.symbol?.bind t.symbol?) (j.symbol?.bind t'.symbol?) := by
  rw [← hi.symbol]
  cases i.symbol? with
  | none => exact .none
  | some id => exact ht.symbol id

include hR ht in
theorem Ident.Alike.valueType (hi : i.Alike R j) :
    Parallel R D Eq (i.valueType t initializing?) (j.valueType t' initializing?) := by
  have hname : j.name = i.name := (hR.text_eq hi.token).symm
  have hsymbol := hi.rel_symbol ht
  unfold Ident.valueType
  rw [hname, ← hi.symbol, ← hi.type]
  rw [← hi.symbol] at hsymbol
  generalize i.symbol?.bind t.symbol? = s? at hsymbol
  generalize i.symbol?.bind t'.symbol? = s?' at hsymbol
  cases hsymbol with
  | none => exact .pure rfl
  | some hs =>
      dsimp only
      rw [hs.kind]
      split_ifs
      · exact .report_bind hi.token rfl (.pure rfl)
      · exact .report_bind hi.token rfl (.pure rfl)
      · exact .pure rfl

namespace Typing

theorem subscript_parallel (array index : TypeId) {p p' : Token} (hp : R p p') :
    Parallel R D Eq (subscript types array index p) (subscript types array index p') := by
  unfold subscript
  cases types.element? array with
  | none => exact .report_bind hp rfl (.pure rfl)
  | some element =>
      dsimp only
      split_ifs
      · exact .pure rfl
      · exact .report_bind hp rfl (.pure rfl)

theorem between_parallel (op : BinaryOp) (left right : TypeId) {p p' : Token} (hp : R p p') :
    Parallel R D Eq (between types op left right p) (between types op left right p') := by
  unfold between
  cases op.result? types left right with
  | none => exact .report_bind hp rfl (.pure rfl)
  | some type => exact .pure rfl

theorem binary_parallel (op : BinaryOp) (left? right? : Option TypeId) {p p' q q' : Token}
    (hp : R p p') (hq : R q q') :
    Parallel R D Eq (binary types op left? right? p q) (binary types op left? right? p' q') := by
  unfold binary
  split
  · split_ifs
    · exact subscript_parallel types _ _ hq
    · exact between_parallel types op _ _ hp
  · exact .pure rfl

theorem unary_parallel (op : UnaryOp) (operand? : Option TypeId) {p p' : Token} (hp : R p p') :
    Parallel R D Eq (unary types op operand? p) (unary types op operand? p') := by
  unfold unary
  cases operand? with
  | none => exact .pure rfl
  | some type =>
      dsimp only
      split_ifs
      · exact .pure rfl
      · exact .report_bind hp rfl (.pure rfl)

theorem member_parallel (left? : Option TypeId) {p p' : Token} (hp : R p p') :
    Parallel R D Eq (member types left? p) (member types left? p') := by
  unfold member
  cases left? with
  | none => exact .pure rfl
  | some type => exact .report_bind hp rfl (.pure rfl)

theorem arguments_parallel {args args' : List (Typed Expr)}
    (h : List.Forall₂ (Typed.Alike R) args args') (params : List (String × Option TypeId)) (n : ℕ) :
    Parallel R D (fun _ _ => True) (arguments types n args params)
      (arguments types n args' params) := by
  induction h generalizing n params with
  | nil => exact .pure trivial
  | @cons a a' _ _ ha _ ih =>
      obtain ⟨e, actual?⟩ := a
      obtain ⟨e', actual?'⟩ := a'
      obtain ⟨he, rfl⟩ : e.Alike R e' ∧ actual? = actual?' := ha
      cases params with
      | nil => exact .pure trivial
      | cons p ps =>
          obtain ⟨name, required?⟩ := p
          unfold arguments
          dsimp only
          split
          · split_ifs
            · exact .report_bind he.token rfl (ih ps (n + 1))
            · exact ih ps (n + 1)
          · exact ih ps (n + 1)

include hR ht in
theorem call_parallel (hi : i.Alike R j) {args args' : List (Typed Expr)}
    (h : List.Forall₂ (Typed.Alike R) args args') :
    Parallel R D Eq (call types t i args) (call types t' j args') := by
  have hname : j.name = i.name := (hR.text_eq hi.token).symm
  have hsymbol := hi.rel_symbol ht
  unfold call
  rw [hname, ← h.length_eq]
  generalize i.symbol?.bind t.symbol? = s? at hsymbol
  generalize j.symbol?.bind t'.symbol? = s?' at hsymbol
  cases hsymbol with
  | none => exact .pure rfl
  | some hs =>
      dsimp only
      rw [hs.kind, hs.params, hs.type]
      split_ifs
      · exact .report_bind hi.token rfl (.pure rfl)
      · exact .report_bind hi.token rfl
          ((arguments_parallel types h _ _).bind fun _ _ _ => .pure rfl)
      · exact (arguments_parallel types h _ _).bind fun _ _ _ => .pure rfl

end Typing

theorem Expr.Alike.inferAll {es es' : List Expr}
    (h : List.Forall₂ (fun e e' => Parallel R D (Typed.Alike R) (e.infer types t initializing?)
      (e'.infer types t' initializing?)) es es') :
    Parallel R D (List.Forall₂ (Typed.Alike R)) (infer.inferAll types t initializing? es)
      (infer.inferAll types t' initializing? es') := by
  induction h with
  | nil => exact .pure .nil
  | cons he _ ih =>
      exact he.bind fun _ _ he => ih.bind_pure fun _ _ hes => .cons he hes

theorem forall₂_fst {args args' : List (Typed Expr)} (h : List.Forall₂ (Typed.Alike R) args args') :
    List.Forall₂ (Expr.Alike R) (args.map Prod.fst) (args'.map Prod.fst) := by
  rw [List.forall₂_map_left_iff, List.forall₂_map_right_iff]
  exact h.imp fun _ _ ha => ha.1

include hR ht in
theorem Expr.Alike.infer (h : e.Alike R e') :
    Parallel R D (Typed.Alike R) (e.infer types t initializing?)
      (e'.infer types t' initializing?) := by
  induction h using Expr.Alike.induction with
  | literal hv => exact .pure ⟨.literal hv, rfl⟩
  | ident hi =>
      refine (hi.valueType hR ht initializing?).bind ?_
      rintro found? _ rfl
      exact .pure ((Expr.Alike.ident hi).record found?)
  | unary _ hop ih =>
      refine ih.bind ?_
      rintro ⟨a, a?⟩ ⟨a', _⟩ ⟨ha, rfl⟩
      refine (Typing.unary_parallel types _ a? ha.token).bind ?_
      rintro found? _ rfl
      exact .pure ((Expr.Alike.unary ha hop).record found?)
  | @binary op _ _ _ _ _ _ _ _ hb hop iha ihb =>
      unfold Expr.infer
      refine iha.bind ?_
      rintro ⟨a, a?⟩ ⟨a', _⟩ ⟨ha, rfl⟩
      dsimp only
      split_ifs
      · refine (Typing.member_parallel types a? hop).bind ?_
        rintro found? _ rfl
        exact .pure ((Expr.Alike.binary ha hb hop).record found?)
      · refine ihb.bind ?_
        rintro ⟨b, b?⟩ ⟨b', _⟩ ⟨hb, rfl⟩
        refine (Typing.binary_parallel types op a? b? hop hb.token).bind ?_
        rintro found? _ rfl
        exact .pure ((Expr.Alike.binary ha hb hop).record found?)
  | call hi _ hop ih =>
      refine (inferAll types initializing? (ih.imp fun _ _ ⟨_, h⟩ => h)).bind fun _ _ hargs => ?_
      refine (Typing.call_parallel hR ht types hi hargs).bind ?_
      rintro found? _ rfl
      exact .pure ((Expr.Alike.call hi (forall₂_fst hargs) hop).record found?)

end

/-! ## Checking statements -/

section
variable {t t' : SymbolTable} {e e' : Expr} {p p' : Token} (hR : Token.Pairing R)
  (ht : t.Alike R D t') (types : TypeTable)

namespace Checking

include hR ht in
theorem condition_parallel (statement : String) (hp : R p p') (h : e.Alike R e') :
    Parallel R D (Expr.Alike R) (condition types t statement p e)
      (condition types t' statement p' e') := by
  refine (h.infer hR ht types none).bind ?_
  rintro ⟨a, a?⟩ ⟨a', _⟩ ⟨ha, rfl⟩
  cases a? with
  | none => exact .pure ha
  | some type =>
      dsimp only
      split_ifs
      · exact .pure ha
      · exact .report_bind hp rfl (.pure ha)

theorem assignable_parallel (expected? received? : Option TypeId) (hp : R p p') :
    Parallel R D (fun _ _ => True) (assignable types expected? received? p)
      (assignable types expected? received? p') := by
  unfold assignable
  split
  · split_ifs
    · exact .report hp rfl
    · exact .pure trivial
  · exact .pure trivial

include ht in
theorem returnType?_eq (scope : ScopeId) : returnType? t scope = returnType? t' scope := by
  unfold returnType?
  rw [← ht.lookup?_eq]
  cases t.lookup? Symbol.returnValueName .any scope with
  | none => rfl
  | some id =>
      have hid := ht.symbol id
      change ((t.symbol? id).bind Symbol.type?) = (t'.symbol? id).bind Symbol.type?
      generalize t.symbol? id = s? at hid
      generalize t'.symbol? id = s?' at hid
      cases hid with
      | none => rfl
      | some hs => exact hs.type

include hR ht in
theorem returned_parallel (scope : ScopeId) (hp : R p p') {e? e?' : Option Expr}
    (h : Option.Rel (Expr.Alike R) e? e?') :
    Parallel R D (Option.Rel (Expr.Alike R)) (returned types t scope p e?)
      (returned types t' scope p' e?') := by
  unfold returned
  rw [← returnType?_eq ht]
  cases returnType? t scope with
  | none =>
      cases h with
      | none => exact .pure .none
      | some h => exact .pure (.some h)
  | some expected =>
      cases h with
      | none =>
          dsimp only
          split_ifs
          · exact .pure .none
          · exact .report_bind hp rfl (.pure .none)
      | some h =>
          refine (h.infer hR ht types none).bind ?_
          rintro ⟨a, a?⟩ ⟨a', _⟩ ⟨ha, rfl⟩
          cases a? with
          | none => exact .pure (.some ha)
          | some received =>
              dsimp only
              split_ifs
              · exact .pure (.some ha)
              · exact .report_bind hp rfl (.pure (.some ha))

end Checking

end

end ScriptFront
