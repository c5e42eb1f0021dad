import ScriptFront.Proofs.Parsing.Closure
import ScriptFront.Proofs.Parsing.Reading

/-!
# Where failures are reported

A parser reports if each of its failures is the report at the furthest read of
the state in which it ends. Nothing is read behind a failure, so the report is
still that of the final state when the failure has gone through all the steps
around it. The combinators of statements and programs keep it that way; only an
expression fails with a diagnostic of its own, and there failures do not count.
-/
namespace ScriptFront.Parser

variable {α β : Type}

/-- Every failure is reported at the furthest read. -/
def Reports (p : Parser α) : Prop :=
  ∀ s d t, p s = (.failed d, t) → d = t.syntaxError

namespace Reports

variable {p q : Parser α} {production : String} {kind : TokenKind}

theorem of_never (h : ∀ s d, (p s).1 ≠ .failed d) : p.Reports := by
  intro s d t hr
  exact absurd (congrArg Prod.fst hr) (h s d)

theorem of_look {g : ParserState → α} (h : ∀ s, p s = (.matched (g s), s)) : p.Reports :=
  of_never fun s d => by simp [h]

theorem pure (a : α) : (Pure.pure a : Parser α).Reports := of_look fun _ => rfl

theorem noMatch : (Parser.noMatch : Parser α).Reports :=
  of_never fun s d => by simp [Parser.noMatch]

theorem stop : (Parser.stop : Parser α).Reports := by
  rintro s d t ⟨⟩
  rfl

theorem accept : (Parser.accept kind).Reports := by
  refine of_never fun s d => ?_
  rw [accept_apply]
  split_ifs <;> simp

theorem bind {f : α → Parser β} (hp : p.Reports) (hf : ∀ a, (f a).Reports) :
    (p >>= f).Reports := by
  intro s d u hu
  cases hr : p s with
  | mk o t =>
      cases o with
      | matched a =>
          rw [bind_of_matched hr] at hu
          exact hf a t d u hu
      | noMatch =>
          rw [bind_of_noMatch hr] at hu
          simp at hu
      | failed e =>
          rw [bind_of_failed hr] at hu
          cases hu
          exact hp s d u hr

/-- The mark that is removed at the end has no part in the report. -/
theorem attempt (hp : p.Reports) : (p.attempt production).Reports := by
  intro s d u hu
  rw [Parser.attempt] at hu
  cases hr : p (s.enter production) with
  | mk o t =>
      rw [hr] at hu
      cases o <;> cases hu
      exact hp (s.enter production) d t hr

theorem tentative (p : Parser α) : (p.tentative production).Reports := by
  refine of_never fun s d => ?_
  rw [Parser.tentative]
  cases p (s.enter production) with
  | mk o t => cases o <;> simp

theorem committed (hp : p.Reports) : p.committed.Reports := by
  intro s d u hu
  rw [Parser.committed] at hu
  cases hr : p s with
  | mk o t =>
      rw [hr] at hu
      cases o <;> cases hu
      · rfl
      · exact hp _ _ _ hr

theorem optional (hp : p.Reports) : p.optional.Reports := by
  intro s d u hu
  rw [Parser.optional] at hu
  cases hr : p s with
  | mk o t =>
      rw [hr] at hu
      cases o <;> cases hu
      exact hp _ _ _ hr

theorem orElse (hp : p.Reports) (hq : q.Reports) : (p.orElse q).Reports := by
  intro s d u hu
  rw [Parser.orElse] at hu
  cases hr : p s with
  | mk o t =>
      rw [hr] at hu
      cases o with
      | matched a => simp at hu
      | noMatch => exact hq t d u hu
      | failed e =>
          cases hu
          exact hp _ _ _ hr

theorem closed : Closed (fun _ => True) Reports where
  named _ _ := trivial
  pure := pure
  noMatch := noMatch
  stop := stop
  accept _ := accept
  currentKind := of_look fun _ => rfl
  grammar := of_look fun _ => rfl
  bind := bind
  production_bind hf := bind (of_look fun _ => rfl) fun name => hf name trivial
  attempt _ := attempt
  committed := committed
  optional := optional
  orElse := orElse
  bounded hf s := hf _ s

end Reports

theorem result_eq_ok {p : Parser α} {s : ParserState} {a : α} (h : p.result s = .ok a) :
    (p s).1 = .matched a := by
  rw [result] at h
  rcases hr : p s with ⟨o, t⟩
  rw [hr] at h
  cases o <;> cases h
  rfl

theorem result_eq_ok_iff {p : Parser α} {s : ParserState} {a : α} :
    p.result s = .ok a ↔ (p s).1 = .matched a := by
  refine ⟨result_eq_ok, fun h => ?_⟩
  rw [result, show p s = (.matched a, (p s).2) from Prod.ext h rfl]

/-- A run that does not match is reported at the furthest read of its end. -/
theorem Reports.result_eq_error {p : Parser α} {s : ParserState} {d : Diagnostic}
    (hp : p.Reports) (h : p.result s = .error d) :
    (∀ a, (p s).1 ≠ .matched a) ∧ d = (p s).2.syntaxError := by
  rw [result] at h
  cases hr : p s with
  | mk o t =>
      rw [hr] at h
      cases o with
      | matched a => simp at h
      | noMatch =>
          cases h
          exact ⟨by simp, rfl⟩
      | failed e =>
          cases h
          exact ⟨by simp, hp s d t hr⟩

end ScriptFront.Parser
