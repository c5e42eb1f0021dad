import ScriptFront.Proofs.Diagnostic.Stages
import ScriptFront.Proofs.Parsing.Closure
import ScriptFront.Proofs.Parsing.Reading
import ScriptFront.Proofs.Token.Numbers

/-!
# Orderly runs

A number is read twice, by the lexer and by the parser. Where the lexer has left numbers
with values only, the parser has nothing to say against them: no failure of it is one that
is found before there are tokens. The productions under which it reads are those of the
language. The combinators keep runs that way.
-/
namespace ScriptFront

/-- Every number on the stream has a value, and the productions are those of the
language. -/
structure ParserState.Orderly (s : ParserState) : Prop where
  valued : ∀ i, (s.cursor.stream.get i).Numeric
  production : s.production ∈ Parser.productions
  furthest : s.cursor.furthestProduction ∈ Parser.productions

theorem ParserState.stage?_syntaxError (s : ParserState) :
    s.syntaxError.fault.stage? = some .parsing := by
  unfold syntaxError
  dsimp only
  split_ifs
  · rfl
  · split <;> rfl

theorem ParserState.texts_syntaxError (s : ParserState) :
    s.syntaxError.fault.texts = [s.cursor.furthestProduction] := by
  unfold syntaxError
  dsimp only
  split_ifs
  · rfl
  · split <;> rfl

theorem ParserState.not_isLexical_syntaxError (s : ParserState) :
    ¬ s.syntaxError.fault.isLexical := by
  rw [Fault.isLexical_iff, s.stage?_syntaxError]
  decide

namespace ParserState.Orderly

variable {s : ParserState} {production : String} (h : s.Orderly)
include h

theorem current : s.cursor.current.Numeric := h.valued _

theorem advanced : s.advanced.Orderly where
  valued := by
    rw [s.follows_advanced.stream]
    exact h.valued
  production := h.production
  furthest := by
    unfold ParserState.advanced TokenCursor.step TokenCursor.record
    split_ifs
    · exact h.production
    · exact h.production
    · exact h.furthest
    · exact h.furthest

theorem enter (hp : production ∈ Parser.productions) : (s.enter production).Orderly :=
  ⟨h.valued, hp, h.furthest⟩

theorem keep (hp : production ∈ Parser.productions) : (s.keep production).Orderly :=
  ⟨h.valued, hp, h.furthest⟩

theorem retreat (hp : production ∈ Parser.productions) : (s.retreat production).Orderly := by
  unfold ParserState.retreat TokenCursor.reset
  split
  · exact ⟨h.valued, hp, h.furthest⟩
  · exact ⟨h.valued, hp, h.furthest⟩

end ParserState.Orderly

namespace Parser

variable {α β : Type}

/-- The run leaves an orderly state, and if it has failed, then not for a reason that is
found before there are tokens. -/
structure EndsOrderly (r : Outcome α × ParserState) : Prop where
  state : r.2.Orderly
  late : ∀ d, r.1 = .failed d → ¬ d.fault.isLexical

/-- From an orderly state, the parser ends orderly. -/
def Orderly (p : Parser α) : Prop := ∀ s : ParserState, s.Orderly → EndsOrderly (p s)

namespace Orderly

variable {p q : Parser α} {production : String} {kind : TokenKind}

theorem pure (a : α) : (Pure.pure a : Parser α).Orderly := fun _ h => ⟨h, nofun⟩

theorem noMatch : (Parser.noMatch : Parser α).Orderly := fun _ h => ⟨h, nofun⟩

theorem fail {d : Diagnostic} (hd : ¬ d.fault.isLexical) :
    (Parser.fail d : Parser α).Orderly := by
  refine fun s h => ⟨h, fun e he => ?_⟩
  cases he
  exact hd

theorem unexpected (token : Token) (message : String) :
    (Parser.fail (.unexpected token message) : Parser α).Orderly :=
  fail Bool.false_ne_true

theorem stop : (Parser.stop : Parser α).Orderly := by
  refine fun s h => ⟨h, fun e he => ?_⟩
  cases he
  exact s.not_isLexical_syntaxError

theorem ofExcept {x : Except Diagnostic α} (h : ∀ d, x = .error d → ¬ d.fault.isLexical) :
    (Parser.ofExcept x).Orderly := by
  cases x with
  | ok a => exact pure a
  | error d => exact fail (h d rfl)

theorem bind {f : α → Parser β} (hp : p.Orderly) (hf : ∀ a, (f a).Orderly) :
    (p >>= f).Orderly := by
  intro s hs
  obtain ⟨hstate, hlate⟩ := hp s hs
  rcases hr : p s with ⟨o, t⟩
  rw [hr] at hstate hlate
  cases o with
  | matched a =>
      rw [bind_of_matched hr]
      exact hf a t hstate
  | noMatch =>
      rw [bind_of_noMatch hr]
      exact ⟨hstate, nofun⟩
  | failed e =>
      rw [bind_of_failed hr]
      refine ⟨hstate, fun d hd => ?_⟩
      cases hd
      exact hlate e rfl

theorem bind_pure {f : α → β} (hp : p.Orderly) : (p >>= fun a => Pure.pure (f a)).Orderly :=
  hp.bind fun _ => pure _

theorem advance_bind {f : Token → Parser α}
    (hf : ∀ token : Token, token.Numeric → (f token).Orderly) : (advance >>= f).Orderly := by
  intro s hs
  rw [bind_of_matched (advance_apply s)]
  exact hf _ hs.current _ hs.advanced

theorem accept : (Parser.accept kind).Orderly := by
  refine advance_bind fun token _ => ?_
  split_ifs
  · exact pure _
  · exact noMatch

theorem expect : (Parser.expect kind).Orderly := by
  refine advance_bind fun token _ => ?_
  split_ifs
  · exact pure _
  · exact unexpected _ _

theorem currentKind_bind {f : TokenKind → Parser α} (hf : ∀ kind, (f kind).Orderly) :
    (currentKind >>= f).Orderly := fun s hs => hf _ s hs

theorem grammar_bind {f : Grammar → Parser α} (hf : ∀ g, (f g).Orderly) :
    (grammar >>= f).Orderly := fun s hs => hf _ s hs

theorem production_bind {f : String → Parser α}
    (hf : ∀ production ∈ productions, (f production).Orderly) :
    (Parser.production >>= f).Orderly := fun s hs => hf _ hs.production s hs

theorem attempt (hname : production ∈ productions) (hp : p.Orderly) :
    (p.attempt production).Orderly := by
  intro s hs
  obtain ⟨hstate, hlate⟩ := hp _ (hs.enter hname)
  unfold Parser.attempt
  rcases hr : p (s.enter production) with ⟨o, t⟩
  rw [hr] at hstate hlate
  cases o with
  | matched a => exact ⟨hstate.keep hs.production, nofun⟩
  | noMatch => exact ⟨hstate.retreat hs.production, nofun⟩
  | failed e => exact ⟨hstate.keep hs.production, hlate⟩

theorem tentative (hname : production ∈ productions) (hp : p.Orderly) :
    (p.tentative production).Orderly := by
  intro s hs
  obtain ⟨hstate, -⟩ := hp _ (hs.enter hname)
  unfold Parser.tentative
  rcases hr : p (s.enter production) with ⟨o, t⟩
  rw [hr] at hstate
  cases o with
  | matched a => exact ⟨hstate.keep hs.production, nofun⟩
  | noMatch | failed => exact ⟨hstate.retreat hs.production, nofun⟩

theorem committed (hp : p.Orderly) : p.committed.Orderly := by
  intro s hs
  obtain ⟨hstate, hlate⟩ := hp s hs
  unfold Parser.committed
  rcases hr : p s with ⟨o, t⟩
  rw [hr] at hstate hlate
  cases o with
  | matched a => exact ⟨hstate, nofun⟩
  | noMatch =>
      refine ⟨hstate, fun d hd => ?_⟩
      cases hd
      exact t.not_isLexical_syntaxError
  | failed e => exact ⟨hstate, hlate⟩

theorem optional (hp : p.Orderly) : p.optional.Orderly := by
  intro s hs
  obtain ⟨hstate, hlate⟩ := hp s hs
  unfold Parser.optional
  rcases hr : p s with ⟨o, t⟩
  rw [hr] at hstate hlate
  cases o with
  | matched | noMatch => exact ⟨hstate, nofun⟩
  | failed e =>
      refine ⟨hstate, fun d hd => ?_⟩
      cases hd
      exact hlate e rfl

theorem orElse (hp : p.Orderly) (hq : q.Orderly) : (p.orElse q).Orderly := by
  intro s hs
  obtain ⟨hstate, hlate⟩ := hp s hs
  unfold Parser.orElse
  rcases hr : p s with ⟨o, t⟩
  rw [hr] at hstate hlate
  cases o with
  | matched a => exact ⟨hstate, nofun⟩
  | noMatch => exact hq t hstate
  | failed e => exact ⟨hstate, hlate⟩

theorem bounded {f : ℕ → Parser α} (hf : ∀ n, (f n).Orderly) : (Parser.bounded f).Orderly :=
  fun s hs => hf _ s hs

theorem closed : Closed (· ∈ productions) Orderly where
  named _ hname := hname
  pure := pure
  noMatch := noMatch
  stop := stop
  accept _ := accept
  currentKind _ hs := ⟨hs, nofun⟩
  grammar _ hs := ⟨hs, nofun⟩
  bind := bind
  production_bind := production_bind
  attempt := attempt
  committed := committed
  optional := optional
  orElse := orElse
  bounded := bounded

/-- A parse from an orderly state does not come to nothing for a reason that is found
before there are tokens. -/
theorem not_isLexical_of_result {s : ParserState} {d : Diagnostic} (hp : p.Orderly)
    (hs : s.Orderly) (h : p.result s = .error d) : ¬ d.fault.isLexical := by
  obtain ⟨-, hlate⟩ := hp s hs
  unfold result at h
  rcases hr : p s with ⟨o, t⟩
  rw [hr] at h hlate
  cases o with
  | matched a => cases h
  | noMatch =>
      cases h
      exact t.not_isLexical_syntaxError
  | failed e =>
      cases h
      exact hlate d rfl

end Orderly

end Parser

/-- In front of tokens whose numbers have values. -/
theorem ParserState.orderly_ofTokens {body : List Token} {last : Token} {production : String}
    (h : ∀ t ∈ body ++ [last], t.Numeric) (hname : production ∈ Parser.productions) :
    (ofTokens (body ++ [last]) production).Orderly := by
  refine ⟨fun i => ?_, hname, List.mem_cons_self⟩
  change ((TokenStream.ofList (body ++ [last])).get i).Numeric
  rw [TokenStream.get, Array.getD_eq_getD_getElem?, TokenStream.last_ofList]
  cases hi : (TokenStream.ofList (body ++ [last])).body[i]? with
  | none => exact h last (by simp)
  | some t =>
      have hmem := Array.mem_of_getElem? hi
      have hbody : t ∈ body := by simpa [TokenStream.ofList] using hmem
      exact h t (by simp [hbody])

end ScriptFront
