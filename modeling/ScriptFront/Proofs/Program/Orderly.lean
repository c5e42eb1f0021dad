import ScriptFront.Program.Parser
import ScriptFront.Proofs.Parsing.Orderly
import ScriptFront.Proofs.Program.Closure

/-!
# The parsers are orderly

Every parser of the language ends orderly, those of expressions with any table of
operators. So neither a program nor an expression is refused for the sake of a number, and
a program that is refused is refused in a production of the language.
-/
namespace ScriptFront

/-! ## Expressions -/

/-- A number that has a value is a literal, so that a token which is no operand is
merely unexpected. -/
theorem Expr.not_isLexical_of_ofToken {t : Token} {d : Diagnostic} (ht : t.Numeric)
    (h : Expr.ofToken t = .error d) : ¬ d.fault.isLexical := by
  unfold ofToken at h
  split at h
  · next hk =>
      obtain ⟨hd, hl⟩ := ht.int hk
      rw [Numeral.integer?_of_isDigits hd hl] at h
      cases h
  · next hk =>
      obtain ⟨whole, fraction, hw, hf, htext⟩ := ht.float hk
      obtain ⟨x, hx⟩ := Option.isSome_iff_exists.mp (Numeral.Binary64.isSome_ofText? hw hf)
      rw [htext, hx] at h
      cases h
  · cases h
  · cases h
  · cases h
  · cases h
    exact Bool.false_ne_true

section
variable {sub : BindingPower → Parser Expr} (h : ∀ power, (sub power).Orderly)
include h

theorem Opening.orderly (opening : Opening) : (opening.parse sub).Orderly := by
  cases opening with
  | primary =>
      exact .advance_bind fun token ht =>
        .ofExcept fun d hd => Expr.not_isLexical_of_ofToken ht hd
  | signed => exact .advance_bind fun _ _ => (h _).bind_pure
  | grouping =>
      exact .advance_bind fun _ _ => (h _).bind fun _ => .bind .expect fun _ => .pure _

namespace Continuation

theorem arguments_orderly (n : ℕ) : (arguments sub n).Orderly := by
  induction n with
  | zero => exact .stop
  | succ n ih =>
      refine (h _).bind fun first => .currentKind_bind fun kind => ?_
      split_ifs
      · exact .advance_bind fun _ _ => ih.bind_pure
      · exact .pure _

theorem argumentsAndClose_orderly : (argumentsAndClose sub).Orderly := by
  refine .currentKind_bind fun kind => ?_
  split_ifs
  · exact .advance_bind fun _ _ => .pure _
  · exact .bind (.bounded (arguments_orderly h)) fun _ => .bind .expect fun _ => .pure _

theorem orderly (continuation : Continuation) (left : Expr) (power : BindingPower) :
    (continuation.parse sub left power).Orderly := by
  cases continuation with
  | binary =>
      refine .advance_bind fun operator _ => ?_
      split
      · exact .unexpected _ _
      · exact (h _).bind_pure
  | call =>
      refine .advance_bind fun openParen _ => ?_
      split
      · exact (argumentsAndClose_orderly h).bind_pure
      · exact .unexpected _ _
  | subscript =>
      exact .advance_bind fun _ _ => (h _).bind fun _ => .bind .expect fun _ => .pure _
  | member =>
      refine .advance_bind fun dot _ => .currentKind_bind fun kind => ?_
      split_ifs
      · exact (h _).bind_pure
      · exact .advance_bind fun _ _ => .unexpected _ _

end Continuation

namespace Parser

omit h in
theorem continuation?_orderly (power : BindingPower) : (continuation? power).Orderly := by
  refine .currentKind_bind fun kind => .grammar_bind fun g => ?_
  dsimp only
  split_ifs
  · exact .pure _
  · exact .pure _

theorem climb_orderly (power : BindingPower) (n : ℕ) (left : Expr) :
    (climb sub power n left).Orderly := by
  induction n generalizing left with
  | zero => exact .stop
  | succ n ih =>
      refine (continuation?_orderly power).bind fun next? => ?_
      cases next? with
      | none => exact .pure _
      | some next => exact (next.1.orderly h left next.2).bind ih

theorem operand_orderly : (operand sub).Orderly := by
  refine .currentKind_bind fun kind => .grammar_bind fun g => ?_
  split
  · next opening _ => exact opening.orderly h
  · exact .advance_bind fun _ _ => .unexpected _ _

end Parser

end

namespace Parser

theorem expressionWithin_orderly (n : ℕ) (power : BindingPower) :
    (expressionWithin n power).Orderly := by
  induction n generalizing power with
  | zero => exact .stop
  | succ n ih =>
      exact (operand_orderly ih).bind fun left => .bounded fun rounds =>
        climb_orderly ih power rounds left

theorem expression_orderly (power : BindingPower) : (expression power).Orderly :=
  .bounded fun n => expressionWithin_orderly n power

theorem wholeExpression_orderly : wholeExpression.Orderly := by
  refine (expression_orderly _).bind fun e => .currentKind_bind fun kind => ?_
  split_ifs
  · exact .pure _
  · exact .advance_bind fun _ _ => .stop

theorem expression?_orderly : expression?.Orderly :=
  .tentative (by decide) (expression_orderly _)

theorem program_orderly : program.Orderly :=
  Orderly.closed.program expression?_orderly

end Parser

end ScriptFront
