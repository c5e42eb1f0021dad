import ScriptFront.Proofs.Grammar.Sequences
import ScriptFront.Proofs.Parsing.Reading

/-!
# Which tokens a parser matches

The converse of recognition is stated for a given place: a parser matches a
value there and reads certain tokens, or it declines and stays where it is. What
comes behind the tokens in question is left open, and each use says what it
requires of that.
-/
namespace ScriptFront.Parser

variable {α β : Type}

/-- From `s` the parser matches `a` and reads exactly `w`. -/
def MatchesAt (p : Parser α) (s : ParserState) (a : α) (w : List Token) : Prop :=
  ∃ t, p s = (.matched a, t) ∧ s.Reads w t

/-- From `s` the parser does not match, wherever it ends. -/
def RejectsAt (p : Parser α) (s : ParserState) : Prop :=
  ∃ t, p s = (.noMatch, t) ∧ s.Follows t

/-- From `s` the parser does not match, and ends where it begins. -/
def DeclinesAt (p : Parser α) (s : ParserState) : Prop :=
  ∃ t, p s = (.noMatch, t) ∧ s.Reads [] t

variable {p : Parser α} {f : α → Parser β} {s : ParserState} {a : α} {b : β}
  {w v : List Token}

theorem MatchesAt.pure : (Pure.pure a : Parser α).MatchesAt s a [] := ⟨s, rfl, .refl s⟩

theorem MatchesAt.bind (h : p.MatchesAt s a w)
    (hf : ∀ t, s.Reads w t → (f a).MatchesAt t b v) :
    (p >>= f).MatchesAt s b (w ++ v) := by
  obtain ⟨t, ht, hw⟩ := h
  obtain ⟨u, hu, hv⟩ := hf t hw
  exact ⟨u, (bind_of_matched ht).trans hu, hw.trans hv⟩

theorem MatchesAt.bind_pure {g : α → β} (h : p.MatchesAt s a w) :
    (p >>= fun a => Pure.pure (g a)).MatchesAt s (g a) w := by
  have hg := h.bind (f := fun a => (Pure.pure (g a) : Parser β)) fun t _ => .pure
  rwa [List.append_nil] at hg

theorem MatchesAt.bind_rejectsAt (h : p.MatchesAt s a w)
    (hf : ∀ t, s.Reads w t → (f a).RejectsAt t) : (p >>= f).RejectsAt s := by
  obtain ⟨t, ht, hw⟩ := h
  obtain ⟨u, hu, hv⟩ := hf t hw
  exact ⟨u, (bind_of_matched ht).trans hu, hw.toFollows.trans hv⟩

theorem RejectsAt.bind (h : p.RejectsAt s) : (p >>= f).RejectsAt s := by
  obtain ⟨t, ht, hst⟩ := h
  exact ⟨t, bind_of_noMatch ht, hst⟩

/-! ## Single tokens -/

section
variable {token : Token} {r : List Token} {kind : TokenKind} {g : Token → Parser β}

theorem advance_bind (hs : s.Ready) (hr : s.rest = token :: r)
    (hk : token.kind ≠ .endOfInput)
    (hf : ∀ t, t.Ready → t.rest = r → (g token).MatchesAt t b v) :
    (advance >>= g).MatchesAt s b (token :: v) := by
  obtain rfl := hs.current_eq hr
  have hw := hs.reads_advanced hk
  obtain ⟨u, hu, hv⟩ := hf _ (hw.ready hs) (hw.rest_of_append hr)
  exact ⟨u, (bind_of_matched (advance_apply s)).trans hu, hw.trans hv⟩

theorem accept_bind (hs : s.Ready) (hr : s.rest = token :: r) (hk : token.kind = kind)
    (he : kind ≠ .endOfInput)
    (hf : ∀ t, t.Ready → t.rest = r → (g token).MatchesAt t b v) :
    (accept kind >>= g).MatchesAt s b (token :: v) := by
  obtain rfl := hs.current_eq hr
  have hw := hs.reads_advanced (hk ▸ he)
  obtain ⟨u, hu, hv⟩ := hf _ (hw.ready hs) (hw.rest_of_append hr)
  have ha : accept kind s = (.matched s.cursor.current, s.advanced) := by
    rw [accept_apply, if_pos hk]
  exact ⟨u, (bind_of_matched ha).trans hu, hw.trans hv⟩

theorem accept_matchesAt (hs : s.Ready) (hr : s.rest = token :: r) (hk : token.kind = kind)
    (he : kind ≠ .endOfInput) : (accept kind).MatchesAt s token [token] := by
  obtain rfl := hs.current_eq hr
  exact ⟨s.advanced, by rw [accept_apply, if_pos hk], hs.reads_advanced (hk ▸ he)⟩

theorem expect_bind (hs : s.Ready) (hr : s.rest = token :: r) (hk : token.kind = kind)
    (he : kind ≠ .endOfInput)
    (hf : ∀ t, t.Ready → t.rest = r → (g token).MatchesAt t b v) :
    (expect kind >>= g).MatchesAt s b (token :: v) := by
  obtain rfl := hs.current_eq hr
  have hw := hs.reads_advanced (hk ▸ he)
  obtain ⟨u, hu, hv⟩ := hf _ (hw.ready hs) (hw.rest_of_append hr)
  have ha : expect kind s = (.matched s.cursor.current, s.advanced) := by
    rw [expect_apply, if_pos hk]
  exact ⟨u, (bind_of_matched ha).trans hu, hw.trans hv⟩

theorem currentKind_bind {h : TokenKind → Parser β} (hs : s.Ready) (hr : s.rest = token :: r)
    (hm : (h token.kind).MatchesAt s b w) : (currentKind >>= h).MatchesAt s b w := by
  obtain rfl := hs.current_eq hr
  exact hm

theorem accept_rejectsAt (hs : s.Ready) (hr : s.rest = token :: r) (hk : token.kind ≠ kind) :
    (accept kind).RejectsAt s := by
  obtain rfl := hs.current_eq hr
  exact ⟨s.advanced, by rw [accept_apply, if_neg hk], s.follows_advanced⟩

/-- A step behind an accepted token does not match. -/
theorem accept_bind_rejectsAt (hs : s.Ready) (hr : s.rest = token :: r)
    (he : token.kind = kind → kind ≠ .endOfInput)
    (hf : token.kind = kind → ∀ t, t.Ready → t.rest = r → (g token).RejectsAt t) :
    (accept kind >>= g).RejectsAt s := by
  by_cases hk : token.kind = kind
  · obtain rfl := hs.current_eq hr
    have hw := hs.reads_advanced (hk ▸ he hk)
    obtain ⟨u, hu, hv⟩ := hf hk _ (hw.ready hs) (hw.rest_of_append hr)
    have ha : accept kind s = (.matched s.cursor.current, s.advanced) := by
      rw [accept_apply, if_pos hk]
    exact ⟨u, (bind_of_matched ha).trans hu, hw.toFollows.trans hv⟩
  · exact (accept_rejectsAt hs hr hk).bind

end

/-! ## Alternatives -/

section
variable {production : String}

theorem MatchesAt.attempt (h : p.MatchesAt (s.enter production) a w) :
    (p.attempt production).MatchesAt s a w := by
  obtain ⟨t, ht, hw⟩ := h
  exact ⟨t.keep s.production, by rw [Parser.attempt, ht], hw.keep⟩

theorem DeclinesAt.attempt (h : p.RejectsAt (s.enter production)) :
    (p.attempt production).DeclinesAt s := by
  obtain ⟨t, ht, hst⟩ := h
  exact ⟨t.retreat s.production, by rw [Parser.attempt, ht],
    hst.retreat.reads_nil (ParserState.index_retreat hst)⟩

theorem MatchesAt.tentative (h : p.MatchesAt (s.enter production) a w) :
    (p.tentative production).MatchesAt s a w := by
  obtain ⟨t, ht, hw⟩ := h
  exact ⟨t.keep s.production, by rw [Parser.tentative, ht], hw.keep⟩

/-- A failure is taken back like a mismatch. -/
theorem tentative_declinesAt {o : Outcome α} {t : ParserState}
    (ht : p (s.enter production) = (o, t)) (ho : ∀ a, o ≠ .matched a)
    (hst : (s.enter production).Follows t) : (p.tentative production).DeclinesAt s := by
  refine ⟨t.retreat s.production, ?_, hst.retreat.reads_nil (ParserState.index_retreat hst)⟩
  rw [Parser.tentative, ht]
  cases o with
  | matched a => exact absurd rfl (ho a)
  | noMatch => rfl
  | failed d => rfl

end

theorem DeclinesAt.rejectsAt (h : p.DeclinesAt s) : p.RejectsAt s := by
  obtain ⟨t, ht, hst⟩ := h
  exact ⟨t, ht, hst.toFollows⟩

theorem DeclinesAt.bind (h : p.DeclinesAt s) : (p >>= f).DeclinesAt s := by
  obtain ⟨t, ht, hst⟩ := h
  exact ⟨t, bind_of_noMatch ht, hst⟩

theorem MatchesAt.committed (h : p.MatchesAt s a w) : p.committed.MatchesAt s a w := by
  obtain ⟨t, ht, hw⟩ := h
  exact ⟨t, by rw [Parser.committed, ht], hw⟩

theorem MatchesAt.optional (h : p.MatchesAt s a w) :
    p.optional.MatchesAt s (some a) w := by
  obtain ⟨t, ht, hw⟩ := h
  exact ⟨t, by rw [Parser.optional, ht], hw⟩

theorem DeclinesAt.optional (h : p.DeclinesAt s) : p.optional.MatchesAt s none [] := by
  obtain ⟨t, ht, hst⟩ := h
  exact ⟨t, by rw [Parser.optional, ht], hst⟩

theorem MatchesAt.orElse {q : Parser α} (h : p.MatchesAt s a w) :
    (p.orElse q).MatchesAt s a w := by
  obtain ⟨t, ht, hw⟩ := h
  exact ⟨t, by rw [Parser.orElse, ht], hw⟩

theorem DeclinesAt.orElse_matchesAt {q : Parser α} (h : p.DeclinesAt s)
    (hq : ∀ t, s.Reads [] t → q.MatchesAt t a w) : (p.orElse q).MatchesAt s a w := by
  obtain ⟨t, ht, hst⟩ := h
  obtain ⟨u, hu, hw⟩ := hq t hst
  exact ⟨u, by rw [Parser.orElse, ht]; exact hu, hst.trans hw⟩

theorem DeclinesAt.orElse {q : Parser α} (h : p.DeclinesAt s)
    (hq : ∀ t, s.Reads [] t → q.DeclinesAt t) : (p.orElse q).DeclinesAt s := by
  obtain ⟨t, ht, hst⟩ := h
  obtain ⟨u, hu, hw⟩ := hq t hst
  exact ⟨u, by rw [Parser.orElse, ht]; exact hu, hst.trans hw⟩

/-- Some alternative matches, and every other declines: then the order of the
alternatives does not matter. -/
theorem firstOf_matchesAt {ps : List (Parser α)} (hex : ∃ p ∈ ps, ∀ t, s.Reads [] t →
      p.MatchesAt t a w)
    (hall : ∀ p ∈ ps, ∀ t, s.Reads [] t → p.MatchesAt t a w ∨ p.DeclinesAt t) :
    (firstOf ps).MatchesAt s a w := by
  induction ps generalizing s with
  | nil => simp at hex
  | cons p ps ih =>
      rcases hall p (by simp) s (.refl s) with h | h
      · exact h.orElse
      · obtain ⟨q, hq, hm⟩ := hex
        refine h.orElse_matchesAt fun t ht => ?_
        rcases List.mem_cons.mp hq with rfl | hq
        · obtain ⟨u, hu, -⟩ := h
          obtain ⟨u', hu', -⟩ := hm s (.refl s)
          simp [hu] at hu'
        · exact ih ⟨q, hq, fun u hu => hm u (ht.trans hu)⟩
            fun q hq u hu => hall q (by simp [hq]) u (ht.trans hu)

theorem firstOf_declinesAt {ps : List (Parser α)}
    (hall : ∀ p ∈ ps, ∀ t, s.Reads [] t → p.DeclinesAt t) :
    (firstOf ps).DeclinesAt s := by
  induction ps generalizing s with
  | nil => exact ⟨s, rfl, .refl s⟩
  | cons p ps ih =>
      exact (hall p (by simp) s (.refl s)).orElse fun t ht =>
        ih fun q hq u hu => hall q (by simp [hq]) u (ht.trans hu)

/-! ## Repetitions -/

/-- Items in a row are matched one by one. Behind each item come further items
and then the tokens `r`, in front of which the parser declines. -/
theorem manyUpTo_matchesAt {D : α → List Token → Prop} {as : List α} {r : List Token}
    (h : Repeated D as w) (hs : s.Ready) (hr : s.rest = w ++ r)
    (hitem : ∀ a v u t, D a v → (∃ as, Repeated D as u) → t.Ready →
      t.rest = v ++ (u ++ r) → p.MatchesAt t a v)
    (hend : ∀ t, t.Ready → t.rest = r → p.DeclinesAt t) {n : ℕ} (hn : as.length ≤ n) :
    (p.manyUpTo n).MatchesAt s as w := by
  induction h generalizing s n with
  | nil =>
      cases n with
      | zero => exact .pure
      | succ n =>
          exact (hend s hs hr).optional.bind fun t _ => .pure
  | @cons a as w v ha has ih =>
      cases n with
      | zero => simp at hn
      | succ n =>
          have hm := hitem a w v s ha ⟨as, has⟩ hs (by simpa using hr)
          refine hm.optional.bind fun t ht => ?_
          exact (ih (ht.ready hs) (ht.rest_of_append (by simpa using hr))
            (by simpa using hn)).bind_pure

theorem many_matchesAt {D : α → List Token → Prop} {as : List α} {r : List Token}
    (h : Repeated D as w) (hne : ∀ a w, D a w → w ≠ []) (hs : s.Ready)
    (hr : s.rest = w ++ r)
    (hitem : ∀ a v u t, D a v → (∃ as, Repeated D as u) → t.Ready →
      t.rest = v ++ (u ++ r) → p.MatchesAt t a v)
    (hend : ∀ t, t.Ready → t.rest = r → p.DeclinesAt t) :
    p.many.MatchesAt s as w :=
  manyUpTo_matchesAt h hs hr hitem hend
    ((h.length_le hne).trans ((ParserState.length_le_remaining hr).trans (Nat.le_succ _)))

end ScriptFront.Parser
