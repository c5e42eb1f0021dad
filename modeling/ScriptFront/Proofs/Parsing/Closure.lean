import Mathlib.Tactic.Common
import ScriptFront.Parser

/-!
# Properties that the combinators keep

Statements and definitions are read by parsers that are put together from a few combinators.
A property of parsers that passes through each combinator holds of all of them, if it holds of
the parser for expressions.
-/
namespace ScriptFront.Parser

/-- The productions of the language, as a report names them. -/
def productions : List String :=
  ["program", "function definition", "global variable declaration", "parameter list",
   "parameter", "statement block", "while statement", "call statement", "break statement",
   "return statement", "variable declaration", "assignment", "if statement",
   "if-else statement", "empty statement", "argument list", "expression"]

/-- The property `P` passes from parts to the whole. Alternatives are tried for productions
with names as `N` says, and those of the language are among them. -/
structure Closed (N : String → Prop) (P : {α : Type} → Parser α → Prop) : Prop where
  named : ∀ name ∈ productions, N name
  pure {α : Type} (a : α) : P (Pure.pure a : Parser α)
  noMatch {α : Type} : P (Parser.noMatch : Parser α)
  stop {α : Type} : P (Parser.stop : Parser α)
  accept (kind : TokenKind) : P (Parser.accept kind)
  currentKind : P Parser.currentKind
  grammar : P Parser.grammar
  bind {α β : Type} {p : Parser α} {f : α → Parser β} :
    P p → (∀ a, P (f a)) → P (p >>= f)
  production_bind {α : Type} {f : String → Parser α} :
    (∀ name, N name → P (f name)) → P (Parser.production >>= f)
  attempt {α : Type} {p : Parser α} {name : String} : N name → P p → P (p.attempt name)
  committed {α : Type} {p : Parser α} : P p → P p.committed
  optional {α : Type} {p : Parser α} : P p → P p.optional
  orElse {α : Type} {p q : Parser α} : P p → P q → P (p.orElse q)
  bounded {α : Type} {f : ℕ → Parser α} : (∀ n, P (f n)) → P (Parser.bounded f)

namespace Closed

variable {N : String → Prop} {P : {α : Type} → Parser α → Prop} {α β : Type} {p : Parser α}
variable (h : Closed N P)
include h

theorem bind_pure {f : α → β} (hp : P p) : P (p >>= fun a => Pure.pure (f a)) :=
  h.bind hp fun a => h.pure (f a)

theorem firstOf {ps : List (Parser α)} (hps : ∀ p ∈ ps, P p) : P (Parser.firstOf ps) := by
  induction ps with
  | nil => exact h.noMatch
  | cons p ps ih =>
      rw [List.forall_mem_cons] at hps
      exact h.orElse hps.1 (ih hps.2)

theorem many (hp : P p) : P p.many := by
  refine h.bounded fun n => ?_
  induction n with
  | zero => exact h.pure []
  | succ n ih =>
      refine h.bind (h.optional hp) fun a? => ?_
      cases a? with
      | none => exact h.pure []
      | some a => exact h.bind_pure ih

end Closed

end ScriptFront.Parser
