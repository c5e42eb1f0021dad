import ScriptFront.Proofs.Diagnostic.Alike
import ScriptFront.Proofs.Parsing.History

/-!
# Parsers side by side

Two runs over streams of related tokens go side by side: the states differ in the
tokens of their streams only, and the runs end alike. Only the kind and the text of a
token decide what a parser does, so every combinator keeps parsers side by side. No
fault that a parser reports tells the line of a declaration.
-/
namespace ScriptFront

variable {α β γ δ : Type} {R : Token → Token → Prop} {S : α → β → Prop} {T : γ → δ → Prop}

/-- The states differ in the tokens of their streams only, and these are related. -/
structure ParserState.Alike (R : Token → Token → Prop) (s s' : ParserState) : Prop where
  token (i : ℕ) : R (s.cursor.stream.get i) (s'.cursor.stream.get i)
  size : s.cursor.stream.size = s'.cursor.stream.size
  index : s.cursor.index = s'.cursor.index
  marks : s.cursor.marks = s'.cursor.marks
  furthest : s.cursor.furthest = s'.cursor.furthest
  furthestProduction : s.cursor.furthestProduction = s'.cursor.furthestProduction
  production : s.production = s'.production
  grammar : s.grammar = s'.grammar

theorem ParserState.furthestProduction_advanced (s : ParserState) :
    s.advanced.cursor.furthestProduction =
      if s.cursor.furthest < s.cursor.index then s.production
      else s.cursor.furthestProduction :=
  s.cursor.furthestProduction_next s.production

namespace ParserState.Alike

variable {s s' : ParserState} (h : s.Alike R s')
include h

theorem current : R s.cursor.current s'.cursor.current := by
  unfold TokenCursor.current
  rw [h.index]
  exact h.token s'.cursor.index

theorem remaining : s.cursor.remaining = s'.cursor.remaining := by
  rw [TokenCursor.remaining, TokenCursor.remaining, h.size, h.index]

theorem advanced : s.advanced.Alike R s'.advanced where
  token i := by
    rw [s.follows_advanced.stream, s'.follows_advanced.stream]
    exact h.token i
  size := by
    rw [s.follows_advanced.stream, s'.follows_advanced.stream]
    exact h.size
  index := by rw [index_advanced, index_advanced, h.index, h.size]
  marks := s.follows_advanced.marks.trans (h.marks.trans s'.follows_advanced.marks.symm)
  furthest := by rw [furthest_advanced, furthest_advanced, h.furthest, h.index]
  furthestProduction := by
    rw [furthestProduction_advanced, furthestProduction_advanced, h.furthest, h.index,
      h.furthestProduction, h.production]
  production := h.production
  grammar := h.grammar

theorem enter (production : String) : (s.enter production).Alike R (s'.enter production) := by
  have hmarks : s.cursor.index :: s.cursor.marks = s'.cursor.index :: s'.cursor.marks := by
    rw [h.index, h.marks]
  exact { h with marks := hmarks, production := rfl }

theorem keep (outer : String) : (s.keep outer).Alike R (s'.keep outer) :=
  { h with marks := congrArg List.tail h.marks, production := rfl }

theorem retreat (outer : String) : (s.retreat outer).Alike R (s'.retreat outer) := by
  have hmarks := h.marks
  unfold ParserState.retreat TokenCursor.reset
  cases hm : s.cursor.marks with
  | nil =>
      rw [hm] at hmarks
      rw [← hmarks]
      exact { h with production := rfl }
  | cons i is =>
      rw [hm] at hmarks
      rw [← hmarks]
      exact { h with index := rfl, marks := rfl, production := rfl }

end ParserState.Alike

namespace Token.Pairing

variable (hR : Pairing R)
include hR

theorem display_eq {s s' : Token} (h : R s s') : s.display = s'.display := by
  rw [display, display, hR.kind_eq h, hR.text_eq h]

/-- What is said of a token where a certain thing is required is said of its partner. -/
theorem unexpected {s s' : Token} (h : R s s') (message : String) :
    (Diagnostic.unexpected s message).Alike R emptyRelation (.unexpected s' message) := by
  have hfault : Fault.Alike emptyRelation s (.unexpectedTokenDetailed s.display message)
      (.unexpectedTokenDetailed s'.display message) := by
    rw [hR.display_eq h]
    exact rfl
  exact .intro h hfault

theorem syntaxError {s s' : ParserState} (h : s.Alike R s') :
    s.syntaxError.Alike R emptyRelation s'.syntaxError := by
  have htoken := h.token s.cursor.furthest
  have hprevious := h.token (s.cursor.furthest - 1)
  unfold ParserState.syntaxError TokenCursor.furthestRead
  rw [← h.furthest, ← h.furthestProduction]
  refine .intro htoken ?_
  simp only [hR.kind_eq htoken, hR.display_eq htoken]
  split_ifs
  · exact rfl
  · exact rfl
  · simp only [hR.display_eq hprevious]
    exact rfl

end Token.Pairing

/-! ## Runs -/

/-- The runs end in the same way, with related values or alike diagnostics, and leave
alike states behind. -/
inductive Ends (R : Token → Token → Prop) (S : α → β → Prop) :
    Outcome α × ParserState → Outcome β × ParserState → Prop
  | matched {a : α} {b : β} {t t' : ParserState} : S a b → t.Alike R t' →
      Ends R S (.matched a, t) (.matched b, t')
  | noMatch {t t' : ParserState} : t.Alike R t' → Ends R S (.noMatch, t) (.noMatch, t')
  | failed {d d' : Diagnostic} {t t' : ParserState} : d.Alike R emptyRelation d' → t.Alike R t' →
      Ends R S (.failed d, t) (.failed d', t')

/-- From alike states, the parsers end alike. -/
def Parser.Parallel (R : Token → Token → Prop) (S : α → β → Prop) (p : Parser α)
    (q : Parser β) : Prop :=
  ∀ s s' : ParserState, s.Alike R s' → Ends R S (p s) (q s')

namespace Parser.Parallel

variable {p : Parser α} {q : Parser β} {p' : Parser α} {q' : Parser β}

theorem pure {a : α} {b : β} (h : S a b) :
    Parallel R S (Pure.pure a : Parser α) (Pure.pure b : Parser β) := fun _ _ hs => .matched h hs

theorem noMatch : Parallel R S (Parser.noMatch : Parser α) (Parser.noMatch : Parser β) :=
  fun _ _ hs => .noMatch hs

theorem fail {d d' : Diagnostic} (h : d.Alike R emptyRelation d') :
    Parallel R S (Parser.fail d : Parser α) (Parser.fail d' : Parser β) :=
  fun _ _ hs => .failed h hs

theorem bind {f : α → Parser γ} {g : β → Parser δ} (h : Parallel R S p q)
    (hf : ∀ a b, S a b → Parallel R T (f a) (g b)) : Parallel R T (p >>= f) (q >>= g) := by
  intro s s' hs
  have hends := h _ _ hs
  rw [bind_apply, bind_apply]
  generalize p s = r at hends
  generalize q s' = r' at hends
  cases hends with
  | matched hab ht => exact hf _ _ hab _ _ ht
  | noMatch ht => exact .noMatch ht
  | failed hd ht => exact .failed hd ht

theorem bind_pure {f : α → γ} {g : β → δ} (h : Parallel R S p q)
    (hf : ∀ a b, S a b → T (f a) (g b)) :
    Parallel R T (p >>= fun a => Pure.pure (f a)) (q >>= fun b => Pure.pure (g b)) :=
  h.bind fun a b hab => .pure (hf a b hab)

theorem seq {f : Parser γ} {g : Parser δ} (h : Parallel R S p q) (hf : Parallel R T f g) :
    Parallel R T (p >>= fun _ => f) (q >>= fun _ => g) :=
  h.bind fun _ _ _ => hf

theorem attempt (h : Parallel R S p q) (production : String) :
    Parallel R S (p.attempt production) (q.attempt production) := by
  intro s s' hs
  have hends := h _ _ (hs.enter production)
  unfold Parser.attempt
  rw [hs.production]
  generalize p (s.enter production) = r at hends
  generalize q (s'.enter production) = r' at hends
  cases hends with
  | matched hab ht => exact .matched hab (ht.keep _)
  | noMatch ht => exact .noMatch (ht.retreat _)
  | failed hd ht => exact .failed hd (ht.keep _)

theorem tentative (h : Parallel R S p q) (production : String) :
    Parallel R S (p.tentative production) (q.tentative production) := by
  intro s s' hs
  have hends := h _ _ (hs.enter production)
  unfold Parser.tentative
  rw [hs.production]
  generalize p (s.enter production) = r at hends
  generalize q (s'.enter production) = r' at hends
  cases hends with
  | matched hab ht => exact .matched hab (ht.keep _)
  | noMatch ht => exact .noMatch (ht.retreat _)
  | failed _ ht => exact .noMatch (ht.retreat _)

theorem optional (h : Parallel R S p q) : Parallel R (Option.Rel S) p.optional q.optional := by
  intro s s' hs
  have hends := h _ _ hs
  unfold Parser.optional
  generalize p s = r at hends
  generalize q s' = r' at hends
  cases hends with
  | matched hab ht => exact .matched (.some hab) ht
  | noMatch ht => exact .matched .none ht
  | failed hd ht => exact .failed hd ht

theorem orElse (h : Parallel R S p q) (h' : Parallel R S p' q') :
    Parallel R S (p.orElse p') (q.orElse q') := by
  intro s s' hs
  have hends := h _ _ hs
  unfold Parser.orElse
  generalize p s = r at hends
  generalize q s' = r' at hends
  cases hends with
  | matched hab ht => exact .matched hab ht
  | noMatch ht => exact h' _ _ ht
  | failed hd ht => exact .failed hd ht

theorem firstOf {ps : List (Parser α)} {qs : List (Parser β)}
    (h : List.Forall₂ (Parallel R S) ps qs) :
    Parallel R S (Parser.firstOf ps) (Parser.firstOf qs) := by
  induction h with
  | nil => exact .noMatch
  | cons hpq _ ih => exact hpq.orElse ih

theorem bounded {f : ℕ → Parser α} {g : ℕ → Parser β} (h : ∀ n, Parallel R S (f n) (g n)) :
    Parallel R S (Parser.bounded f) (Parser.bounded g) := by
  intro s s' hs
  rw [bounded_apply, bounded_apply, hs.remaining]
  exact h _ _ _ hs

theorem many (h : Parallel R S p q) : Parallel R (List.Forall₂ S) p.many q.many := by
  refine bounded fun n => ?_
  induction n with
  | zero => exact .pure .nil
  | succ n ih =>
      refine h.optional.bind fun a? b? hab => ?_
      cases hab with
      | none => exact .pure .nil
      | some hab => exact ih.bind_pure fun _ _ hrest => .cons hab hrest

theorem grammar : Parallel R Eq Parser.grammar Parser.grammar :=
  fun _ _ hs => .matched hs.grammar hs

theorem production : Parallel R Eq Parser.production Parser.production :=
  fun _ _ hs => .matched hs.production hs

theorem advance : Parallel R R Parser.advance Parser.advance :=
  fun _ _ hs => .matched hs.current hs.advanced

section
variable (hR : Token.Pairing R)
include hR

theorem stop : Parallel R S (Parser.stop : Parser α) (Parser.stop : Parser β) :=
  fun _ _ hs => .failed (hR.syntaxError hs) hs

theorem currentKind : Parallel R Eq Parser.currentKind Parser.currentKind :=
  fun _ _ hs => .matched (hR.kind_eq hs.current) hs

theorem accept (kind : TokenKind) : Parallel R R (Parser.accept kind) (Parser.accept kind) := by
  refine advance.bind fun t t' ht => ?_
  rw [hR.kind_eq ht]
  split_ifs
  · exact .pure ht
  · exact .noMatch

theorem expect (kind : TokenKind) : Parallel R R (Parser.expect kind) (Parser.expect kind) := by
  refine advance.bind fun t t' ht => ?_
  rw [hR.kind_eq ht]
  split_ifs
  · exact .pure ht
  · exact .fail (hR.unexpected ht _)

theorem committed (h : Parallel R S p q) : Parallel R S p.committed q.committed := by
  intro s s' hs
  have hends := h _ _ hs
  unfold Parser.committed
  generalize p s = r at hends
  generalize q s' = r' at hends
  cases hends with
  | matched hab ht => exact .matched hab ht
  | noMatch ht => exact .failed (hR.syntaxError ht) ht
  | failed hd ht => exact .failed hd ht

end

end Parser.Parallel

end ScriptFront
