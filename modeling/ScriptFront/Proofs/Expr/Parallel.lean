import ScriptFront.Expr.Parser
import ScriptFront.Proofs.Parsing.Parallel
import ScriptFront.Proofs.Tree.Alike

/-!
# Expressions side by side

The expression parser reads alike expressions from related tokens.
-/
namespace ScriptFront

variable {R : Token → Token → Prop}

abbrev Parser.ReadsAlike (R : Token → Token → Prop) (p q : Parser Expr) : Prop :=
  Parser.Parallel R (Expr.Alike R) p q

namespace Parser.Parallel

variable {sub sub' : BindingPower → Parser Expr} (hR : Token.Pairing R)

include hR in
theorem ofToken {t t' : Token} (h : R t t') :
    ReadsAlike R (Parser.ofExcept (Expr.ofToken t)) (Parser.ofExcept (Expr.ofToken t')) := by
  unfold Expr.ofToken
  rw [← hR.kind_eq h, ← hR.text_eq h]
  cases t.kind with
  | int =>
      cases Numeral.integer? t.text.toList with
      | none => exact .fail (.intro h rfl)
      | some n => exact .pure (.literal h)
  | float =>
      cases Numeral.Binary64.ofText? t.text.toList with
      | none => exact .fail (.intro h rfl)
      | some x => exact .pure (.literal h)
  | bool => exact .pure (.literal h)
  | string => exact .pure (.literal h)
  | identifier => exact .pure (.ident ⟨h, rfl, rfl⟩)
  | _ => exact .fail (hR.unexpected h _)

include hR in
theorem ofSign {t t' : Token} (h : R t t') {e e' : Expr} (he : e.Alike R e') :
    (Expr.ofSign t e).Alike R (Expr.ofSign t' e') := by
  unfold Expr.ofSign
  rw [← hR.kind_eq h]
  cases t.kind with
  | plus => exact he
  | _ => exact .unary he h

variable (hsub : ∀ power, ReadsAlike R (sub power) (sub' power))
include hR hsub

theorem opening (o : Opening) : ReadsAlike R (o.parse sub) (o.parse sub') := by
  cases o with
  | primary => exact advance.bind fun _ _ ht => ofToken hR ht
  | signed => exact advance.bind fun _ _ ht => (hsub _).bind_pure fun _ _ he => ofSign hR ht he
  | grouping =>
      exact advance.seq ((hsub _).bind fun _ _ he => (expect hR _).seq (.pure he))

theorem arguments (n : ℕ) :
    Parallel R (List.Forall₂ (Expr.Alike R)) (Continuation.arguments sub n)
      (Continuation.arguments sub' n) := by
  induction n with
  | zero => exact stop hR
  | succ n ih =>
      refine (hsub _).bind fun e e' he => (currentKind hR).bind ?_
      rintro kind _ rfl
      split_ifs
      · exact advance.seq (ih.bind_pure fun _ _ hrest => .cons he hrest)
      · exact .pure (.cons he .nil)

theorem argumentsAndClose :
    Parallel R (List.Forall₂ (Expr.Alike R)) (Continuation.argumentsAndClose sub)
      (Continuation.argumentsAndClose sub') := by
  refine (currentKind hR).bind ?_
  rintro kind _ rfl
  split_ifs
  · exact advance.seq (.pure .nil)
  · exact (bounded (arguments hR hsub)).bind fun _ _ hargs => (expect hR _).seq (.pure hargs)

theorem continuation (c : Continuation) {left left' : Expr} (hleft : left.Alike R left')
    (power : BindingPower) : ReadsAlike R (c.parse sub left power) (c.parse sub' left' power) := by
  cases c with
  | binary =>
      refine advance.bind fun t t' ht => ?_
      rw [← hR.kind_eq ht]
      cases BinaryOp.ofKind? t.kind with
      | none => exact .fail (hR.unexpected ht _)
      | some op => exact (hsub _).bind_pure fun _ _ he => .binary hleft he ht
  | call =>
      refine advance.bind fun t t' ht => ?_
      cases hleft with
      | ident hi =>
          exact (argumentsAndClose hR hsub).bind_pure fun _ _ hargs => .call hi hargs ht
      | literal hv => exact .fail (hR.unexpected hv _)
      | unary _ hop | binary _ _ hop => exact .fail (hR.unexpected hop _)
      | call hi => exact .fail (hR.unexpected hi.token _)
  | subscript =>
      exact advance.bind fun _ _ ht => (hsub _).bind fun _ _ he =>
        (expect hR _).seq (.pure (.binary hleft he ht))
  | member =>
      refine advance.bind fun _ _ ht => (currentKind hR).bind ?_
      rintro kind _ rfl
      split_ifs
      · exact (hsub _).bind_pure fun _ _ he => .binary hleft he ht
      · exact advance.bind fun _ _ hother => .fail (hR.unexpected hother _)

omit hsub in
theorem continuation? (power : BindingPower) :
    Parallel R Eq (Parser.continuation? power) (Parser.continuation? power) := by
  refine (currentKind hR).bind ?_
  rintro kind _ rfl
  refine grammar.bind ?_
  rintro g _ rfl
  dsimp only
  split_ifs
  · exact .pure rfl
  · exact .pure rfl

theorem climb (power : BindingPower) (n : ℕ) {left left' : Expr} (hleft : left.Alike R left') :
    ReadsAlike R (Parser.climb sub power n left) (Parser.climb sub' power n left') := by
  induction n generalizing left left' with
  | zero => exact stop hR
  | succ n ih =>
      refine (continuation? hR power).bind ?_
      rintro c? _ rfl
      cases c? with
      | none => exact .pure hleft
      | some c =>
          exact (continuation hR hsub c.1 hleft c.2).bind fun _ _ hlonger => ih hlonger

theorem operand : ReadsAlike R (Parser.operand sub) (Parser.operand sub') := by
  refine (currentKind hR).bind ?_
  rintro kind _ rfl
  refine grammar.bind ?_
  rintro g _ rfl
  cases g.operators.opening? kind with
  | none => exact advance.bind fun _ _ ht => .fail (hR.unexpected ht _)
  | some o => exact opening hR hsub o

omit hsub in
theorem expressionWithin (n : ℕ) (power : BindingPower) :
    ReadsAlike R (Parser.expressionWithin n power) (Parser.expressionWithin n power) := by
  induction n generalizing power with
  | zero => exact stop hR
  | succ n ih =>
      exact (operand hR ih).bind fun _ _ hleft =>
        bounded fun rounds => climb hR ih power rounds hleft

omit hsub in
theorem expression? : ReadsAlike R Parser.expression? Parser.expression? :=
  (bounded fun depth => expressionWithin hR depth .lowest).tentative _

end Parser.Parallel

end ScriptFront
