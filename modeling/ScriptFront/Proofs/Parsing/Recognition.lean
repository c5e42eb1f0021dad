import ScriptFront.Proofs.Grammar.Sequences
import ScriptFront.Proofs.Parsing.Reading

/-!
# What parsers recognize

A relation `D` between values and token lists says which tokens spell which
value. A run recognizes `D` if it goes on from where it starts, if what it
matches is spelled by the tokens it has read, and if it has never read a token
behind which the tokens of the run could not begin anything in `D`: the tokens
in front of the furthest read can be completed. The last condition is what makes
a report at the furthest read a report at the right place.

The combinators carry this from the parts of a parser to the whole. Behind the
tokens `w` what is left of `D` is its residual, the lists that complete `w`.
-/
namespace ScriptFront

variable {α β : Type}

/-- The tokens from the place of `s` up to the token with the index `n` begin
something in `D`. -/
def Explored (D : α → List Token → Prop) (s : ParserState) (n : Nat) : Prop :=
  ∃ w v a, s.cursor.index + w.length = n ∧ w <+: s.rest ∧ D a (w ++ v)

/-- The run `r` from the state `s` recognizes `D`. -/
structure Recognition (D : α → List Token → Prop) (s : ParserState)
    (r : Outcome α × ParserState) : Prop where
  follows : s.Follows r.2
  sound : ∀ a, r.1 = .matched a → ∃ w, s.Reads w r.2 ∧ D a w
  explored : r.2.cursor.furthest = s.cursor.furthest ∨ Explored D s r.2.cursor.furthest

/-- A parser that recognizes `D` wherever it is run. -/
def Parser.Recognizes (p : Parser α) (D : α → List Token → Prop) : Prop :=
  ∀ s : ParserState, s.Ready → Recognition D s (p s)

/-- A parser that recognizes `D`, and does not move where it does not match: another
alternative can take its place. -/
structure Parser.Tries (p : Parser α) (D : α → List Token → Prop) : Prop where
  recognizes : p.Recognizes D
  restores {s t : ParserState} : s.Ready → p s = (.noMatch, t) →
    t.cursor.index = s.cursor.index

theorem Explored.mono {D : α → List Token → Prop} {E : β → List Token → Prop}
    {s : ParserState} {n : Nat} (h : Explored D s n)
    (hd : ∀ a w, D a w → ∃ b v, E b (w ++ v)) : Explored E s n := by
  obtain ⟨w, v, a, hn, hw, ha⟩ := h
  obtain ⟨b, u, hb⟩ := hd a _ ha
  exact ⟨w, v ++ u, b, hn, hw, by simpa using hb⟩

/-- The place where something in `D` may begin is explored. -/
theorem Explored.start {D : α → List Token → Prop} {s : ParserState} {a : α}
    {w : List Token} (h : D a w) : Explored D s s.cursor.index :=
  ⟨[], w, a, by simp, List.nil_prefix, by simpa using h⟩

theorem Explored.of_residual {D : α → List Token → Prop} {s t : ParserState}
    {w : List Token} {n : Nat} (hr : s.Reads w t)
    (h : Explored (fun a v => D a (w ++ v)) t n) : Explored D s n := by
  obtain ⟨u, v, a, hn, hu, ha⟩ := h
  refine ⟨w ++ u, v, a, ?_, ?_, by simpa using ha⟩
  · rw [List.length_append, ← Nat.add_assoc, ← hr.length, hn]
  · rw [hr.rest_eq]
    exact (List.prefix_append_right_inj w).mpr hu

namespace Recognition

variable {D : α → List Token → Prop} {s : ParserState}

theorem mono {E : α → List Token → Prop} {r : Outcome α × ParserState}
    (h : Recognition D s r) (hd : ∀ a w, D a w → E a w) : Recognition E s r where
  follows := h.follows
  sound a ha := by
    obtain ⟨w, hw, hD⟩ := h.sound a ha
    exact ⟨w, hw, hd a w hD⟩
  explored := h.explored.imp_right fun he =>
    he.mono fun a w hD => ⟨a, [], by simpa using hd a w hD⟩

/-- A run that reads nothing and matches nothing recognizes everything. -/
theorem of_unread {o : Outcome α} (h : ∀ a, o ≠ .matched a) : Recognition D s (o, s) where
  follows := .refl s
  sound a ha := absurd ha (h a)
  explored := .inl rfl

theorem pure {a : α} (h : D a []) : Recognition D s ((Pure.pure a : Parser α) s) where
  follows := .refl s
  sound b hb := by
    cases hb
    exact ⟨[], .refl s, h⟩
  explored := .inl rfl

theorem noMatch : Recognition D s (Parser.noMatch s) := of_unread (by simp)

theorem fail {why : Diagnostic} : Recognition D s (Parser.fail why s) := of_unread (by simp)

theorem stop : Recognition D s (Parser.stop s) := of_unread (by simp)

/-- Steps in sequence: the second recognizes the residual of `D` behind what the
first has read. -/
theorem bind {D : β → List Token → Prop} {E : α → List Token → Prop} {p : Parser α}
    {f : α → Parser β} (hp : Recognition E s (p s))
    (hext : ∀ a w, E a w → ∃ b v, D b (w ++ v))
    (hf : ∀ a w t, p s = (.matched a, t) → s.Reads w t → E a w →
      Recognition (fun b v => D b (w ++ v)) t (f a t)) :
    Recognition D s ((p >>= f) s) := by
  rw [Parser.bind_apply]
  cases hr : p s with
  | mk o t =>
      rw [hr] at hp
      have hlift : t.cursor.furthest = s.cursor.furthest ∨
          Explored D s t.cursor.furthest :=
        hp.explored.imp_right fun he => he.mono hext
      cases o with
      | noMatch => exact ⟨hp.follows, by simp, hlift⟩
      | failed d => exact ⟨hp.follows, by simp, hlift⟩
      | matched a =>
          obtain ⟨w, hw, hE⟩ := hp.sound a rfl
          have hq := hf a w t hr hw hE
          refine ⟨hp.follows.trans hq.follows, ?_, ?_⟩
          · intro b hb
            obtain ⟨v, hv, hD⟩ := hq.sound b hb
            exact ⟨w ++ v, hw.trans hv, hD⟩
          · rcases hq.explored with he | he
            · rw [he]
              exact hlift
            · exact .inr (he.of_residual hw)

theorem bind_pure {D : β → List Token → Prop} {E : α → List Token → Prop} {p : Parser α}
    {g : α → β} (hp : Recognition E s (p s)) (hg : ∀ a w, E a w → D (g a) w) :
    Recognition D s ((p >>= fun a => Pure.pure (g a)) s) := by
  refine bind hp ?_ ?_
  · intro a w ha
    exact ⟨g a, [], by simpa using hg a w ha⟩
  · intro a w t _ _ ha
    exact pure (by simpa using hg a w ha)

/-! ## Questions to the state -/

theorem currentKind_bind {f : TokenKind → Parser α}
    (h : Recognition D s (f s.cursor.current.kind s)) :
    Recognition D s ((Parser.currentKind >>= f) s) := h

theorem production_bind {f : String → Parser α} (h : Recognition D s (f s.production s)) :
    Recognition D s ((Parser.production >>= f) s) := h

/-! ## Single tokens -/

/-- The furthest read behind the next token is an old one or the token's. -/
theorem explored_advanced (hD : ∃ a w, D a w) :
    s.advanced.cursor.furthest = s.cursor.furthest ∨
      Explored D s s.advanced.cursor.furthest := by
  rw [ParserState.furthest_advanced]
  rcases le_total s.cursor.index s.cursor.furthest with h | h
  · exact .inl (max_eq_left h)
  · obtain ⟨a, w, ha⟩ := hD
    rw [max_eq_right h]
    exact .inr (.start ha)

theorem of_advanced {o : Outcome α} (hD : ∃ a w, D a w) (h : ∀ a, o ≠ .matched a) :
    Recognition D s (o, s.advanced) where
  follows := s.follows_advanced
  sound a ha := absurd ha (h a)
  explored := explored_advanced hD

theorem of_residual {r : Outcome α × ParserState} (hs : s.Ready) (hD : ∃ a w, D a w)
    (hk : s.cursor.current.kind ≠ .endOfInput)
    (h : Recognition (fun a v => D a (s.cursor.current :: v)) s.advanced r) :
    Recognition D s r where
  follows := s.follows_advanced.trans h.follows
  sound a ha := by
    obtain ⟨w, hw, hDw⟩ := h.sound a ha
    exact ⟨_, (hs.reads_advanced hk).trans hw, hDw⟩
  explored := by
    rcases h.explored with he | he
    · rw [he]
      exact explored_advanced hD
    · exact .inr (he.of_residual (w := [_]) (hs.reads_advanced hk))

theorem advance_bind {f : Token → Parser α} (hs : s.Ready) (hD : ∃ a w, D a w)
    (hk : s.cursor.current.kind ≠ .endOfInput)
    (hf : s.advanced.Ready → Recognition (fun a v => D a (s.cursor.current :: v)) s.advanced
      (f s.cursor.current s.advanced)) :
    Recognition D s ((Parser.advance >>= f) s) :=
  of_residual hs hD hk (hf (s.follows_advanced.ready hs))

theorem advance_fail {why : Token → Diagnostic} (hD : ∃ a w, D a w) :
    Recognition D s ((Parser.advance >>= fun token => Parser.fail (why token)) s) :=
  of_advanced hD (by simp)

theorem accept_bind {kind : TokenKind} {f : Token → Parser α} (hs : s.Ready)
    (hD : ∃ a w, D a w) (hk : kind ≠ .endOfInput)
    (hf : ∀ token t, token.kind = kind → t.Ready →
      Recognition (fun a v => D a (token :: v)) t (f token t)) :
    Recognition D s ((Parser.accept kind >>= f) s) := by
  by_cases h : s.cursor.current.kind = kind
  · rw [Parser.bind_of_matched (by rw [Parser.accept_apply, if_pos h])]
    exact of_residual hs hD (h ▸ hk) (hf _ _ h (s.follows_advanced.ready hs))
  · rw [Parser.bind_of_noMatch (by rw [Parser.accept_apply, if_neg h])]
    exact of_advanced hD (by simp)

theorem accept {D : Token → List Token → Prop} {kind : TokenKind} (hs : s.Ready)
    (hk : kind ≠ .endOfInput) (hD : ∀ token : Token, token.kind = kind → D token [token]) :
    Recognition D s (Parser.accept kind s) := by
  rw [Parser.accept_apply]
  split_ifs with h
  · exact of_residual hs ⟨_, _, hD _ h⟩ (h ▸ hk) (pure (hD _ h))
  · exact of_advanced ⟨_, _, hD ⟨kind, kind.name, Position.start⟩ rfl⟩ (by simp)

theorem expect_bind {kind : TokenKind} {f : Token → Parser α} (hs : s.Ready)
    (hD : ∃ a w, D a w) (hk : kind ≠ .endOfInput)
    (hf : ∀ token t, token.kind = kind → t.Ready →
      Recognition (fun a v => D a (token :: v)) t (f token t)) :
    Recognition D s ((Parser.expect kind >>= f) s) := by
  by_cases h : s.cursor.current.kind = kind
  · rw [Parser.bind_of_matched (by rw [Parser.expect_apply, if_pos h])]
    exact of_residual hs hD (h ▸ hk) (hf _ _ h (s.follows_advanced.ready hs))
  · rw [Parser.bind_of_failed (by rw [Parser.expect_apply, if_neg h])]
    exact of_advanced hD (by simp)

/-- What begins with the next token is all that a run can recognize. -/
theorem restrict {E : α → List Token → Prop} {r : Outcome α × ParserState} (hs : s.Ready)
    (h : Recognition D s r) (hE : ∃ a w, E a w) (hnil : ∀ a, ¬ D a [])
    (hD : ∀ a v, D a (s.cursor.current :: v) → E a (s.cursor.current :: v)) :
    Recognition E s r where
  follows := h.follows
  sound a ha := by
    obtain ⟨w, hw, hDw⟩ := h.sound a ha
    cases w with
    | nil => exact absurd hDw (hnil a)
    | cons t w =>
        obtain rfl := hs.current_eq hw.rest_eq
        exact ⟨_, hw, hD a w hDw⟩
  explored := by
    refine h.explored.imp_right ?_
    rintro ⟨w, v, a, hn, hw, hDw⟩
    cases w with
    | nil =>
        obtain ⟨b, u, hb⟩ := hE
        exact ⟨[], u, b, hn, hw, hb⟩
    | cons t w =>
        obtain ⟨r, hr⟩ := hw
        obtain rfl := hs.current_eq hr.symm
        exact ⟨_, v, a, hn, ⟨r, hr⟩, hD a _ hDw⟩

/-! ## Ends of alternatives -/

theorem committed {p : Parser α} (h : Recognition D s (p s)) :
    Recognition D s (p.committed s) := by
  rw [Parser.committed]
  cases hr : p s with
  | mk o t =>
      rw [hr] at h
      cases o with
      | noMatch => exact ⟨h.follows, by simp, h.explored⟩
      | matched a => exact h
      | failed d => exact h

/-- A parser that goes on where another has ended without a match. -/
theorem of_reads_nil {t : ParserState} {r : Outcome α × ParserState}
    (hst : s.Reads [] t)
    (he : t.cursor.furthest = s.cursor.furthest ∨ Explored D s t.cursor.furthest)
    (h : Recognition D t r) : Recognition D s r where
  follows := hst.toFollows.trans h.follows
  sound a ha := by
    obtain ⟨w, hw, hD⟩ := h.sound a ha
    exact ⟨w, hst.trans hw, hD⟩
  explored := by
    rcases h.explored with hr | hr
    · rw [hr]
      exact he
    · exact .inr (Explored.of_residual hst (by simpa using hr))

theorem keep {production : String} {o : Outcome α} {t : ParserState}
    (h : Recognition D (s.enter production) (o, t)) :
    Recognition D s (o, t.keep s.production) where
  follows := h.follows.keep
  sound a ha := by
    obtain ⟨w, hw, hD⟩ := h.sound a ha
    exact ⟨w, hw.keep, hD⟩
  explored := h.explored

theorem retreat {production : String} {o : Outcome α} {t : ParserState}
    (h : Recognition D (s.enter production) (o, t)) :
    Recognition D s (.noMatch, t.retreat s.production) where
  follows := h.follows.retreat
  sound a ha := by simp at ha
  explored := by
    rw [ParserState.furthest_retreat h.follows]
    exact h.explored

end Recognition

/-! ## Alternatives -/

namespace Parser

variable {D : α → List Token → Prop} {p q : Parser α} {production : String}

theorem Tries.attempt (h : p.Recognizes D) : (p.attempt production).Tries D where
  recognizes s hs := by
    have hrun := h (s.enter production) (hs.enter production)
    rw [Parser.attempt]
    cases hr : p (s.enter production) with
    | mk o t =>
        rw [hr] at hrun
        cases o with
        | matched a => exact hrun.keep
        | failed d => exact hrun.keep
        | noMatch => exact hrun.retreat
  restores {s t} hs ht := by
    have hf := (h (s.enter production) (hs.enter production)).follows
    rw [Parser.attempt] at ht
    cases hr : p (s.enter production) with
    | mk o u =>
        rw [hr] at ht hf
        cases o <;> simp only [Prod.mk.injEq, reduceCtorEq, false_and, true_and] at ht
        subst ht
        exact ParserState.index_retreat hf

theorem Tries.tentative (h : p.Recognizes D) : (p.tentative production).Tries D where
  recognizes s hs := by
    have hrun := h (s.enter production) (hs.enter production)
    rw [Parser.tentative]
    cases hr : p (s.enter production) with
    | mk o t =>
        rw [hr] at hrun
        cases o with
        | matched a => exact hrun.keep
        | failed d => exact hrun.retreat
        | noMatch => exact hrun.retreat
  restores {s t} hs ht := by
    have hf := (h (s.enter production) (hs.enter production)).follows
    rw [Parser.tentative] at ht
    cases hr : p (s.enter production) with
    | mk o u =>
        rw [hr] at ht hf
        cases o <;> simp only [Prod.mk.injEq, reduceCtorEq, false_and, true_and] at ht
        all_goals
          subst ht
          exact ParserState.index_retreat hf

theorem Tries.optional (h : p.Tries D) : p.optional.Recognizes (Possibly D) := by
  intro s hs
  have hrun := h.recognizes s hs
  have hlift : ∀ n, Explored D s n → Explored (Possibly D) s n := fun n he =>
    he.mono fun a w hD => ⟨some a, [], by simpa using Possibly.some hD⟩
  rw [Parser.optional]
  cases hr : p s with
  | mk o t =>
      rw [hr] at hrun
      cases o with
      | failed d => exact ⟨hrun.follows, by simp, hrun.explored.imp_right (hlift _)⟩
      | matched a =>
          refine ⟨hrun.follows, ?_, hrun.explored.imp_right (hlift _)⟩
          intro b hb
          cases hb
          obtain ⟨w, hw, hD⟩ := hrun.sound a rfl
          exact ⟨w, hw, .some hD⟩
      | noMatch =>
          refine ⟨hrun.follows, ?_, hrun.explored.imp_right (hlift _)⟩
          intro b hb
          cases hb
          exact ⟨[], hrun.follows.reads_nil (h.restores hs hr), .none⟩

theorem Tries.orElse (hp : p.Tries D) (hq : q.Tries D) : (p.orElse q).Tries D := by
  have hback : ∀ {s t : ParserState}, s.Ready → p s = (.noMatch, t) → s.Reads [] t := by
    intro s t hs ht
    have hrun := hp.recognizes s hs
    rw [ht] at hrun
    exact hrun.follows.reads_nil (hp.restores hs ht)
  constructor
  · intro s hs
    have hrun := hp.recognizes s hs
    rw [Parser.orElse]
    cases hr : p s with
    | mk o t =>
        rw [hr] at hrun
        cases o with
        | noMatch =>
            have hst := hback hs hr
            exact .of_reads_nil hst hrun.explored (hq.recognizes t (hst.ready hs))
        | matched a => exact hrun
        | failed d => exact hrun
  · intro s t hs ht
    rw [Parser.orElse] at ht
    cases hr : p s with
    | mk o u =>
        rw [hr] at ht
        cases o <;> simp only [Prod.mk.injEq, reduceCtorEq, false_and] at ht
        have hsu := hback hs hr
        exact (hq.restores (hsu.ready hs) ht).trans hsu.length

theorem Tries.noMatch : (Parser.noMatch : Parser α).Tries D where
  recognizes _ _ := .noMatch
  restores _ ht := by
    cases ht
    rfl

theorem Tries.stop : (Parser.stop : Parser α).Tries D where
  recognizes _ _ := .stop
  restores _ ht := by simp [Parser.stop] at ht

theorem Tries.firstOf {ps : List (Parser α)} (h : ∀ p ∈ ps, p.Tries D) :
    (Parser.firstOf ps).Tries D := by
  induction ps with
  | nil => exact noMatch
  | cons p ps ih => exact (h p (by simp)).orElse (ih fun q hq => h q (by simp [hq]))

theorem Tries.bind_pure {E : β → List Token → Prop} {g : α → β} (h : p.Tries D)
    (hg : ∀ a w, D a w → E (g a) w) : (p >>= fun a => Pure.pure (g a)).Tries E where
  recognizes s hs := .bind_pure (h.recognizes s hs) hg
  restores {s t} hs ht := by
    rw [bind_apply] at ht
    cases hr : p s with
    | mk o u =>
        rw [hr] at ht
        cases o with
        | matched a => simp [Pure.pure, Parser.pure] at ht
        | failed d => simp at ht
        | noMatch =>
            cases ht
            exact h.restores hs hr

theorem Tries.currentKind_bind {f : TokenKind → Parser α} (h : ∀ k, (f k).Tries D) :
    (currentKind >>= f).Tries D :=
  ⟨fun s hs => (h _).recognizes s hs, fun hs ht => (h _).restores hs ht⟩

theorem Tries.grammar_bind {f : Grammar → Parser α} (h : ∀ g, (f g).Tries D) :
    (grammar >>= f).Tries D :=
  ⟨fun s hs => (h _).recognizes s hs, fun hs ht => (h _).restores hs ht⟩

theorem Tries.bounded {f : ℕ → Parser α} (h : ∀ n, (f n).Tries D) :
    (Parser.bounded f).Tries D :=
  ⟨fun s hs => (h _).recognizes s hs, fun hs ht => (h _).restores hs ht⟩

/-! ## Repetitions -/

theorem Tries.manyUpTo (h : p.Tries D) (n : ℕ) :
    (p.manyUpTo n).Recognizes (Repeated D) := by
  induction n with
  | zero => exact fun _ _ => .pure .nil
  | succ n ih =>
      intro s hs
      refine .bind (h.optional s hs) ?_ ?_
      · rintro _ _ (_ | ha)
        · exact ⟨[], [], .nil⟩
        · exact ⟨[_], [], by simpa using Repeated.single ha⟩
      · rintro _ _ t - hw (_ | ha)
        · exact .pure .nil
        · exact .bind_pure (ih t (hw.ready hs)) fun _ _ has => .cons ha has

theorem Tries.many (h : p.Tries D) : p.many.Recognizes (Repeated D) :=
  fun s hs => h.manyUpTo (s.cursor.remaining + 1) s hs

end Parser

end ScriptFront
