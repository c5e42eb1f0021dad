import ScriptFront.Proofs.Parsing.Reading

/-!
# Two runs in lockstep

Two streams that agree up to the token with the index `k` cannot be told apart
before a token behind it is looked at. The second run is in step as long as its
state is that of the first over the other stream. A look at the next token
without reading it can lead the runs apart already in front of the token
`k + 1`; but an attentive parser either reads the token in front of which it
stands or matches without moving, so that both runs will read past `k` in the
end.

Repetition and nesting are bounded by numbers that depend on the length of the
stream. So the two runs may work with different bounds, each greater than the
number of tokens that its state has left.
-/
namespace ScriptFront

variable {α β : Type}

/-! ## One run -/

/-- The run reads the token in front of which it begins, or matches without
moving. -/
def Attends (s : ParserState) (r : Outcome α × ParserState) : Prop :=
  s.cursor.index ≤ r.2.cursor.furthest ∨
    ∃ a, r.1 = .matched a ∧ r.2.cursor.index = s.cursor.index

/-- Where less than `b` tokens are left, the parser goes on from where it starts. -/
def Parser.Proceeds (b : ℕ) (p : Parser α) : Prop :=
  ∀ s : ParserState, s.Ready → s.cursor.remaining < b → s.Follows (p s).2

/-- Where less than `b` tokens are left, the parser attends to the next token. -/
structure Parser.Attentive (b : ℕ) (p : Parser α) : Prop where
  proceeds : p.Proceeds b
  attends {s : ParserState} : s.Ready → s.cursor.remaining < b → Attends s (p s)

variable {k d b b' : ℕ} {x : TokenStream} {s t : ParserState} {p p' : Parser α}

theorem ParserState.Follows.remaining_le (h : s.Follows t) :
    t.cursor.remaining ≤ s.cursor.remaining := by
  have := h.index
  rw [TokenCursor.remaining, TokenCursor.remaining, h.stream]
  omega

theorem ParserState.index_le_furthest_advanced (s : ParserState) :
    s.cursor.index ≤ s.advanced.cursor.furthest := by
  rw [furthest_advanced]
  exact le_max_right _ _

theorem ParserState.Ready.remaining_advanced (hs : s.Ready)
    (hk : s.cursor.current.kind ≠ .endOfInput) (hb : s.cursor.remaining < b + 1) :
    s.advanced.cursor.remaining < b := by
  have hlen := (hs.reads_advanced hk).length
  have hin := hs.inside
  rw [TokenCursor.remaining, s.follows_advanced.stream, hlen]
  rw [TokenCursor.remaining] at hb
  simp only [List.length_singleton]
  omega

/-- Whatever goes on behind the next token has attended to it. -/
theorem Attends.of_advanced {r : Outcome α × ParserState} (h : s.advanced.Follows r.2) :
    Attends s r :=
  .inl (s.index_le_furthest_advanced.trans h.furthest)

namespace Parser

section
variable {f : α → Parser β} {c : α → ℕ}

theorem Proceeds.mono {c : ℕ} (h : p.Proceeds b) (hc : c ≤ b) : p.Proceeds c :=
  fun s hs hb => h s hs (hb.trans_le hc)

theorem Attentive.mono {c : ℕ} (h : p.Attentive b) (hc : c ≤ b) : p.Attentive c :=
  ⟨h.proceeds.mono hc, fun hs hb => h.attends hs (hb.trans_le hc)⟩

/-- No more tokens are left behind a step than before it. -/
theorem Proceeds.remaining_lt (h : p.Proceeds b) {a : α} (hs : s.Ready)
    (hb : s.cursor.remaining < b) (ht : p s = (.matched a, t)) : t.cursor.remaining < b := by
  have hfollows := h s hs hb
  rw [ht] at hfollows
  exact hfollows.remaining_le.trans_lt hb

/-- The bound of what follows may depend on what the first step has matched, as it
may have read a token then. -/
theorem Proceeds.bind_of (hp : p.Proceeds b) (hf : ∀ a, (f a).Proceeds (c a))
    (hc : ∀ s a t, s.Ready → s.cursor.remaining < b → p s = (.matched a, t) →
      t.cursor.remaining < c a) : (p >>= f).Proceeds b := by
  intro s hs hb
  have hfollows := hp s hs hb
  rw [bind_apply]
  cases hr : p s with
  | mk o t =>
      rw [hr] at hfollows
      cases o with
      | noMatch => exact hfollows
      | failed d => exact hfollows
      | matched a => exact hfollows.trans (hf a t (hfollows.ready hs) (hc s a t hs hb hr))

theorem Attentive.bind_of (hp : p.Attentive b) (hf : ∀ a, (f a).Attentive (c a))
    (hc : ∀ s a t, s.Ready → s.cursor.remaining < b → p s = (.matched a, t) →
      t.cursor.remaining < c a) : (p >>= f).Attentive b where
  proceeds := hp.proceeds.bind_of (fun a => (hf a).proceeds) hc
  attends {s} hs hb := by
    have hattends := hp.attends hs hb
    have hready := (hp.proceeds s hs hb).ready hs
    rw [bind_apply]
    cases hr : p s with
    | mk o t =>
        rw [hr] at hattends hready
        cases o with
        | noMatch => simpa [Attends] using hattends
        | failed d => simpa [Attends] using hattends
        | matched a =>
            have hlt := hc s a t hs hb hr
            rcases hattends with h | ⟨_, -, hi⟩
            · exact .inl (h.trans ((hf a).proceeds t hready hlt).furthest)
            · rcases (hf a).attends hready hlt with h | ⟨b, hb, hi'⟩
              · exact .inl (hi ▸ h)
              · exact .inr ⟨b, hb, hi'.trans hi⟩

end

/-- Reads the next token if its kind is a choice, and goes on behind it; else runs
the other parser in front of it. -/
def onNext {γ : Type} (choose : Grammar → TokenKind → Option γ) (body : γ → Token → Parser α)
    (other : Parser α) : Parser α := fun s =>
  match choose s.grammar s.cursor.current.kind with
  | some c => body c s.cursor.current s.advanced
  | none => other s

section
variable {γ : Type} {choose : Grammar → TokenKind → Option γ} {body : γ → Token → Parser α}
  {other : Parser α} {f : Token → Parser α} {kind : TokenKind}

theorem onNext_of_some {c : γ} (h : choose s.grammar s.cursor.current.kind = some c) :
    onNext choose body other s = body c s.cursor.current s.advanced := by
  rw [onNext, h]

theorem onNext_of_none (h : choose s.grammar s.cursor.current.kind = none) :
    onNext choose body other s = other s := by
  rw [onNext, h]

/-- The end mark is never a choice. -/
theorem Attentive.onNext (hend : ∀ s : ParserState, s.Ready →
      choose s.grammar .endOfInput = none)
    (hbody : ∀ c t, (body c t).Proceeds b) (hother : other.Attentive (b + 1)) :
    (onNext choose body other).Attentive (b + 1) := by
  have hread : ∀ (s : ParserState) (c : γ), s.Ready → s.cursor.remaining < b + 1 →
      choose s.grammar s.cursor.current.kind = some c →
      s.advanced.Follows (body c s.cursor.current s.advanced).2 := by
    intro s c hs hb hc
    have hk : s.cursor.current.kind ≠ .endOfInput := by
      intro hk
      rw [hk, hend s hs] at hc
      simp at hc
    exact hbody c _ _ (s.follows_advanced.ready hs) (hs.remaining_advanced hk hb)
  constructor
  · intro s hs hb
    cases hc : choose s.grammar s.cursor.current.kind with
    | none =>
        rw [onNext_of_none hc]
        exact hother.proceeds s hs hb
    | some c =>
        rw [onNext_of_some hc]
        exact s.follows_advanced.trans (hread s c hs hb hc)
  · intro s hs hb
    cases hc : choose s.grammar s.cursor.current.kind with
    | none =>
        rw [onNext_of_none hc]
        exact hother.attends hs hb
    | some c =>
        rw [onNext_of_some hc]
        exact .of_advanced (hread s c hs hb hc)

theorem Attentive.advance_bind
    (hf : ∀ t : Token, t.kind ≠ .endOfInput → (f t).Proceeds b)
    (hend : ∀ t : Token, t.kind = .endOfInput → ∀ c, (f t).Proceeds c) :
    (advance >>= f).Attentive (b + 1) := by
  have hread : ∀ s : ParserState, s.Ready → s.cursor.remaining < b + 1 →
      s.advanced.Follows (f s.cursor.current s.advanced).2 := by
    intro s hs hb
    have hready := s.follows_advanced.ready hs
    by_cases hk : s.cursor.current.kind = .endOfInput
    · exact hend _ hk (s.advanced.cursor.remaining + 1) _ hready (Nat.lt_succ_self _)
    · exact hf _ hk _ hready (hs.remaining_advanced hk hb)
  exact ⟨fun s hs hb => s.follows_advanced.trans (hread s hs hb),
    fun hs hb => .of_advanced (hread _ hs hb)⟩

theorem accept_bind_eq (f : Token → Parser α) : (accept kind >>= f) =
    (advance >>= fun t => if t.kind = kind then f t else noMatch) := by
  funext s
  rw [bind_apply, accept_apply, bind_of_matched (advance_apply s)]
  split_ifs <;> rfl

theorem expect_bind_eq (f : Token → Parser α) : (expect kind >>= f) =
    (advance >>= fun t => if t.kind = kind then f t
      else fail (.unexpected t ("expected " ++ kind.name))) := by
  funext s
  rw [bind_apply, expect_apply, bind_of_matched (advance_apply s)]
  split_ifs <;> rfl

theorem accept_eq : accept kind = (accept kind >>= fun t => Pure.pure t) := by
  funext s
  rw [bind_apply, accept_apply]
  split_ifs <;> rfl

end

end Parser

/-! ## Two runs -/

/-- The state in front of another stream. -/
def ParserState.over (s : ParserState) (x : TokenStream) : ParserState :=
  { s with cursor := { s.cursor with stream := x } }

/-- The state has read no token behind `k`, and up to there it makes no difference
whether it stands in its own stream or in `x`. -/
structure InStep (k : ℕ) (x : TokenStream) (s : ParserState) : Prop where
  ready : s.Ready
  ready_over : (s.over x).Ready
  same : ∀ i ≤ k, x.get i = s.cursor.stream.get i
  inside : k + 1 < s.cursor.stream.size
  inside_over : k + 1 < x.size
  reached : s.cursor.index ≤ k + 1
  explored : s.cursor.furthest ≤ k

/-- The run has read past `k`, or it ended with a match where the next token read
is behind `k`. -/
def Past (k : ℕ) (r : Outcome α × ParserState) : Prop :=
  k < r.2.cursor.furthest ∨ ∃ a, r.1 = .matched a ∧ r.2.cursor.index = k + 1

/-- Two runs end in step, or both of them are past `k`. -/
def Agree (k : ℕ) (x : TokenStream) (r r' : Outcome α × ParserState) : Prop :=
  (Past k r ∧ Past k r') ∨ (r' = (r.1, r.2.over x) ∧ InStep k x r.2)

/-- Two parsers that run in lockstep from states that are in step and stand no
further than at `k + d`. -/
structure Locked (d b b' : ℕ) (p p' : Parser α) : Prop where
  proceeds : p.Proceeds b
  proceeds' : p'.Proceeds b'
  agree {k : ℕ} {x : TokenStream} {s : ParserState} : InStep k x s →
    s.cursor.index ≤ k + d → s.cursor.remaining < b → (s.over x).cursor.remaining < b' →
    Agree k x (p s) (p' (s.over x))

/-- Two attentive parsers that run in lockstep. -/
structure Steady (b b' : ℕ) (p p' : Parser α) : Prop where
  attentive : p.Attentive b
  attentive' : p'.Attentive b'
  agree {k : ℕ} {x : TokenStream} {s : ParserState} : InStep k x s →
    s.cursor.index ≤ k → s.cursor.remaining < b → (s.over x).cursor.remaining < b' →
    Agree k x (p s) (p' (s.over x))

theorem Attends.past {r : Outcome α × ParserState} (h : Attends s r)
    (hs : s.cursor.index = k + 1) : Past k r := by
  rcases h with h | ⟨a, ha, hi⟩
  · exact .inl (by omega)
  · exact .inr ⟨a, ha, hi.trans hs⟩

/-- In front of the token `k + 1` it is the attention that keeps two runs
together. -/
theorem Steady.locked (h : Steady b b' p p') : Locked 1 b b' p p' where
  proceeds := h.attentive.proceeds
  proceeds' := h.attentive'.proceeds
  agree {k x s} hs _ hb hb' := by
    rcases hs.reached.lt_or_eq with hlt | heq
    · exact h.agree hs (by omega) hb hb'
    · exact .inl ⟨(h.attentive.attends hs.ready hb).past heq,
        (h.attentive'.attends hs.ready_over hb').past heq⟩

theorem Steady.locked_zero (h : Steady b b' p p') : Locked 0 b b' p p' :=
  ⟨h.attentive.proceeds, h.attentive'.proceeds, h.agree⟩

theorem Locked.mono {c c' : ℕ} (h : Locked d b b' p p') (hc : c ≤ b) (hc' : c' ≤ b') :
    Locked d c c' p p' where
  proceeds := h.proceeds.mono hc
  proceeds' := h.proceeds'.mono hc'
  agree hs hi hb hb' := h.agree hs hi (hb.trans_le hc) (hb'.trans_le hc')

theorem Steady.mono {c c' : ℕ} (h : Steady b b' p p') (hc : c ≤ b) (hc' : c' ≤ b') :
    Steady c c' p p' where
  attentive := h.attentive.mono hc
  attentive' := h.attentive'.mono hc'
  agree hs hi hb hb' := h.agree hs hi (hb.trans_le hc) (hb'.trans_le hc')

/-! ## Parsers that do not look at the stream -/

/-- A parser that ends where it begins, with the same outcome on either stream. -/
theorem Locked.of_still (hp : ∀ s, (p s).2 = s)
    (h : ∀ k x s, InStep k x s → (p (s.over x)).1 = (p s).1) : Locked d b b' p p where
  proceeds s _ _ := by
    rw [hp]
    exact .refl s
  proceeds' s _ _ := by
    rw [hp]
    exact .refl s
  agree {k x s} hs _ _ _ := by
    refine .inr ⟨Prod.ext (h k x s hs) ?_, ?_⟩
    · rw [hp, hp]
    · rwa [hp]

theorem Parser.Attentive.pure (a : α) : (Pure.pure a : Parser α).Attentive b :=
  ⟨fun s _ _ => .refl s, fun _ _ => .inr ⟨a, rfl, rfl⟩⟩

theorem Steady.pure (a : α) : Steady b b' (Pure.pure a : Parser α) (Pure.pure a) :=
  ⟨.pure a, .pure a, fun hs _ _ _ => .inr ⟨rfl, hs⟩⟩

theorem Locked.noMatch : Locked d b b' (Parser.noMatch : Parser α) Parser.noMatch :=
  .of_still (fun _ => rfl) fun _ _ _ _ => rfl

theorem Locked.fail (why : Diagnostic) :
    Locked d b b' (Parser.fail why : Parser α) (Parser.fail why) :=
  .of_still (fun _ => rfl) fun _ _ _ _ => rfl

/-- A report at the furthest read is the same on either stream. -/
theorem InStep.syntaxError (h : InStep k x s) : (s.over x).syntaxError = s.syntaxError := by
  have hread : (s.over x).cursor.furthestRead = s.cursor.furthestRead := by
    have hk := h.explored
    simp only [ParserState.over, TokenCursor.furthestRead, h.same _ hk,
      h.same (s.cursor.furthest - 1) (by omega)]
  rw [ParserState.syntaxError, hread, ParserState.syntaxError]

/-! ## Steps in sequence -/

section
variable {f f' : α → Parser β} (c c' : α → ℕ)

theorem Past.bind (h : Past k (p s)) (hp : p.Proceeds b) (hs : s.Ready)
    (hb : s.cursor.remaining < b) (hf : ∀ a, (f a).Attentive (c a))
    (hc : ∀ a t, p s = (.matched a, t) → t.cursor.remaining < c a) :
    Past k ((p >>= f) s) := by
  have hready := (hp s hs hb).ready hs
  rw [Parser.bind_apply]
  cases hr : p s with
  | mk o t =>
      rw [hr] at h hready
      cases o with
      | noMatch => simpa [Past] using h
      | failed d => simpa [Past] using h
      | matched a =>
          rcases h with h | ⟨_, -, hi⟩
          · exact .inl (h.trans_le ((hf a).proceeds t hready (hc a t hr)).furthest)
          · exact ((hf a).attends hready (hc a t hr)).past hi

theorem Locked.bind_of (hp : Locked d b b' p p') (hf : ∀ a, Steady (c a) (c' a) (f a) (f' a))
    (hc : ∀ s a t, s.Ready → s.cursor.remaining < b → p s = (.matched a, t) →
      t.cursor.remaining < c a)
    (hc' : ∀ s a t, s.Ready → s.cursor.remaining < b' → p' s = (.matched a, t) →
      t.cursor.remaining < c' a) :
    Locked d b b' (p >>= f) (p' >>= f') where
  proceeds := hp.proceeds.bind_of (fun a => (hf a).attentive.proceeds) hc
  proceeds' := hp.proceeds'.bind_of (fun a => (hf a).attentive'.proceeds) hc'
  agree {k x s} hs hi hb hb' := by
    rcases hp.agree hs hi hb hb' with ⟨h, h'⟩ | ⟨heq, hin⟩
    · exact .inl ⟨h.bind c hp.proceeds hs.ready hb (fun a => (hf a).attentive)
          fun a t => hc s a t hs.ready hb,
        h'.bind c' hp.proceeds' hs.ready_over hb' (fun a => (hf a).attentive')
          fun a t => hc' _ a t hs.ready_over hb'⟩
    · rw [Parser.bind_apply, Parser.bind_apply, heq]
      cases hr : p s with
      | mk o t =>
          rw [hr] at heq hin
          cases o with
          | noMatch => exact .inr ⟨rfl, hin⟩
          | failed d => exact .inr ⟨rfl, hin⟩
          | matched a =>
              exact (hf a).locked.agree hin hin.reached (hc s a t hs.ready hb hr)
                (hc' _ a _ hs.ready_over hb' heq)

theorem Steady.bind_of (hp : Steady b b' p p') (hf : ∀ a, Steady (c a) (c' a) (f a) (f' a))
    (hc : ∀ s a t, s.Ready → s.cursor.remaining < b → p s = (.matched a, t) →
      t.cursor.remaining < c a)
    (hc' : ∀ s a t, s.Ready → s.cursor.remaining < b' → p' s = (.matched a, t) →
      t.cursor.remaining < c' a) :
    Steady b b' (p >>= f) (p' >>= f') where
  attentive := hp.attentive.bind_of (fun a => (hf a).attentive) hc
  attentive' := hp.attentive'.bind_of (fun a => (hf a).attentive') hc'
  agree := (hp.locked_zero.bind_of c c' hf hc hc').agree

theorem Locked.bind (hp : Locked d b b' p p') (hf : ∀ a, Steady b b' (f a) (f' a)) :
    Locked d b b' (p >>= f) (p' >>= f') :=
  hp.bind_of (fun _ => b) (fun _ => b') hf (fun _ _ _ => hp.proceeds.remaining_lt)
    fun _ _ _ => hp.proceeds'.remaining_lt

theorem Steady.bind (hp : Steady b b' p p') (hf : ∀ a, Steady b b' (f a) (f' a)) :
    Steady b b' (p >>= f) (p' >>= f') :=
  hp.bind_of (fun _ => b) (fun _ => b') hf (fun _ _ _ => hp.attentive.proceeds.remaining_lt)
    fun _ _ _ => hp.attentive'.proceeds.remaining_lt

end

/-! ## Single tokens -/

theorem ParserState.advanced_over (hi : s.cursor.index + 1 < s.cursor.stream.size)
    (hx : s.cursor.index + 1 < x.size) : (s.over x).advanced = s.advanced.over x := by
  have hrecord : ((s.cursor.record s.production).stream = s.cursor.stream ∧
      (s.cursor.record s.production).index = s.cursor.index) :=
    ⟨(record_eq _ _).1, (record_eq _ _).2.1⟩
  have hover : (s.over x).cursor.record s.production =
      { s.cursor.record s.production with stream := x } := by
    unfold TokenCursor.record ParserState.over
    split_ifs <;> rfl
  simp only [advanced, ParserState.over] at hover ⊢
  rw [hover]
  simp only [TokenCursor.step, hrecord, hi, hx, if_true]

/-- In front of a token up to `k` both runs read the same token. -/
theorem InStep.advanced (h : InStep k x s) (hi : s.cursor.index ≤ k) :
    (s.over x).cursor.current = s.cursor.current ∧ (s.over x).advanced = s.advanced.over x ∧
      InStep k x s.advanced := by
  have hin : s.cursor.index + 1 < s.cursor.stream.size := by
    have := h.inside
    omega
  have hinx : s.cursor.index + 1 < x.size := by
    have := h.inside_over
    omega
  have hover := ParserState.advanced_over hin hinx
  have hstream := s.follows_advanced.stream
  refine ⟨h.same _ hi, hover, ?_⟩
  constructor
  case ready => exact s.follows_advanced.ready h.ready
  case ready_over =>
    rw [← hover]
    exact (s.over x).follows_advanced.ready h.ready_over
  case same =>
    rw [hstream]
    exact h.same
  case inside =>
    rw [hstream]
    exact h.inside
  case inside_over => exact h.inside_over
  case reached =>
    rw [ParserState.index_advanced, if_pos hin]
    omega
  case explored =>
    rw [ParserState.furthest_advanced]
    exact max_le h.explored hi

section
variable {f f' : Token → Parser α} {kind : TokenKind}

theorem Steady.advance_bind
    (hf : ∀ t : Token, t.kind ≠ .endOfInput → Locked 1 b b' (f t) (f' t))
    (hend : ∀ t : Token, t.kind = .endOfInput → ∀ c c', Locked 1 c c' (f t) (f' t)) :
    Steady (b + 1) (b' + 1) (Parser.advance >>= f) (Parser.advance >>= f') where
  attentive := .advance_bind (fun t ht => (hf t ht).proceeds)
    fun t ht c => (hend t ht c 0).proceeds
  attentive' := .advance_bind (fun t ht => (hf t ht).proceeds')
    fun t ht c => (hend t ht 0 c).proceeds'
  agree {k x s} hs hi hb hb' := by
    obtain ⟨hcurrent, hover, hin⟩ := hs.advanced hi
    change Agree k x (f s.cursor.current s.advanced)
      (f' (s.over x).cursor.current (s.over x).advanced)
    rw [hcurrent, hover]
    by_cases hk : s.cursor.current.kind = .endOfInput
    · exact (hend _ hk (s.advanced.cursor.remaining + 1)
        ((s.advanced.over x).cursor.remaining + 1)).agree hin hin.reached
        (Nat.lt_succ_self _) (Nat.lt_succ_self _)
    · have hbx := hs.ready_over.remaining_advanced (hcurrent ▸ hk) hb'
      rw [hover] at hbx
      exact (hf _ hk).agree hin hin.reached (hs.ready.remaining_advanced hk hb) hbx

theorem Steady.accept_bind (hk : kind ≠ .endOfInput) (hf : ∀ t, Locked 1 b b' (f t) (f' t)) :
    Steady (b + 1) (b' + 1) (Parser.accept kind >>= f) (Parser.accept kind >>= f') := by
  rw [Parser.accept_bind_eq, Parser.accept_bind_eq]
  refine .advance_bind (fun t _ => ?_) fun t ht c c' => ?_
  · split_ifs
    · exact hf t
    · exact .noMatch
  · rw [if_neg (ht ▸ hk.symm), if_neg (ht ▸ hk.symm)]
    exact .noMatch

theorem Steady.accept (hk : kind ≠ .endOfInput) :
    Steady (b + 1) (b' + 1) (Parser.accept kind) (Parser.accept kind) := by
  rw [Parser.accept_eq]
  exact .accept_bind hk fun t => (Steady.pure t).locked

theorem Steady.expect_bind (hk : kind ≠ .endOfInput) (hf : ∀ t, Locked 1 b b' (f t) (f' t)) :
    Steady (b + 1) (b' + 1) (Parser.expect kind >>= f) (Parser.expect kind >>= f') := by
  rw [Parser.expect_bind_eq, Parser.expect_bind_eq]
  refine .advance_bind (fun t _ => ?_) fun t ht c c' => ?_
  · split_ifs
    · exact hf t
    · exact .fail _
  · rw [if_neg (ht ▸ hk.symm), if_neg (ht ▸ hk.symm)]
    exact .fail _

theorem Steady.accept_then (hk : kind ≠ .endOfInput) (hf : ∀ t, Steady b b' (f t) (f' t)) :
    Steady b b' (Parser.accept kind >>= f) (Parser.accept kind >>= f') :=
  (Steady.accept_bind hk fun t => (hf t).locked).mono (Nat.le_succ _) (Nat.le_succ _)

theorem Steady.expect_then (hk : kind ≠ .endOfInput) (hf : ∀ t, Steady b b' (f t) (f' t)) :
    Steady b b' (Parser.expect kind >>= f) (Parser.expect kind >>= f') :=
  (Steady.expect_bind hk fun t => (hf t).locked).mono (Nat.le_succ _) (Nat.le_succ _)

end

/-! ## Looks at the next token -/

section
variable {γ : Type} {choose : Grammar → TokenKind → Option γ}
  {body body' : γ → Token → Parser α} {other other' : Parser α}

theorem Steady.onNext (hend : ∀ s : ParserState, s.Ready → choose s.grammar .endOfInput = none)
    (hbody : ∀ c t, Locked 1 b b' (body c t) (body' c t))
    (hother : Steady (b + 1) (b' + 1) other other') :
    Steady (b + 1) (b' + 1) (Parser.onNext choose body other)
      (Parser.onNext choose body' other') where
  attentive := .onNext hend (fun c t => (hbody c t).proceeds) hother.attentive
  attentive' := .onNext hend (fun c t => (hbody c t).proceeds') hother.attentive'
  agree {k x s} hs hi hb hb' := by
    obtain ⟨hcurrent, hover, hin⟩ := hs.advanced hi
    have hsame : choose (s.over x).grammar (s.over x).cursor.current.kind =
        choose s.grammar s.cursor.current.kind := by
      rw [hcurrent]
      rfl
    cases hc : choose s.grammar s.cursor.current.kind with
    | none =>
        rw [Parser.onNext_of_none hc, Parser.onNext_of_none (hsame.trans hc)]
        exact hother.agree hs hi hb hb'
    | some c =>
        have hk : s.cursor.current.kind ≠ .endOfInput := by
          intro hk
          rw [hk, hend s hs.ready] at hc
          simp at hc
        have hbx := hs.ready_over.remaining_advanced (hcurrent ▸ hk) hb'
        rw [hover] at hbx
        rw [Parser.onNext_of_some hc, Parser.onNext_of_some (hsame.trans hc), hcurrent, hover]
        exact (hbody c _).agree hin hin.reached (hs.ready.remaining_advanced hk hb) hbx

/-- A question to the kind of the next token, up to `k` with the same answer. -/
theorem Locked.currentKind_bind {f f' : TokenKind → Parser α}
    (hf : ∀ kind, Locked 0 b b' (f kind) (f' kind)) :
    Locked 0 b b' (Parser.currentKind >>= f) (Parser.currentKind >>= f') where
  proceeds s hs hb := (hf _).proceeds s hs hb
  proceeds' s hs hb := (hf _).proceeds' s hs hb
  agree {k x s} hs hi hb hb' := by
    change Agree k x (f s.cursor.current.kind s)
      (f' (s.over x).cursor.current.kind (s.over x))
    rw [(hs.advanced hi).1]
    exact (hf _).agree hs hi hb hb'

theorem Steady.currentKind_bind {f f' : TokenKind → Parser α}
    (hf : ∀ kind, Steady b b' (f kind) (f' kind)) :
    Steady b b' (Parser.currentKind >>= f) (Parser.currentKind >>= f') where
  attentive := ⟨fun s hs hb => (hf _).attentive.proceeds s hs hb,
    fun hs hb => (hf _).attentive.attends hs hb⟩
  attentive' := ⟨fun s hs hb => (hf _).attentive'.proceeds s hs hb,
    fun hs hb => (hf _).attentive'.attends hs hb⟩
  agree := (Locked.currentKind_bind fun kind => (hf kind).locked_zero).agree

end

theorem Steady.production_bind {f f' : String → Parser α}
    (hf : ∀ production, Steady b b' (f production) (f' production)) :
    Steady b b' (Parser.production >>= f) (Parser.production >>= f') where
  attentive := ⟨fun s hs hb => (hf _).attentive.proceeds s hs hb,
    fun hs hb => (hf _).attentive.attends hs hb⟩
  attentive' := ⟨fun s hs hb => (hf _).attentive'.proceeds s hs hb,
    fun hs hb => (hf _).attentive'.attends hs hb⟩
  agree hs hi hb hb' := (hf _).agree hs hi hb hb'

theorem Steady.grammar_bind {f f' : Grammar → Parser α}
    (hf : ∀ g : Grammar, (∀ form, form ∈ g.forms) → Steady b b' (f g) (f' g)) :
    Steady b b' (Parser.grammar >>= f) (Parser.grammar >>= f') where
  attentive := ⟨fun s hs hb => (hf _ hs.forms).attentive.proceeds s hs hb,
    fun hs hb => (hf _ hs.forms).attentive.attends hs hb⟩
  attentive' := ⟨fun s hs hb => (hf _ hs.forms).attentive'.proceeds s hs hb,
    fun hs hb => (hf _ hs.forms).attentive'.attends hs hb⟩
  agree hs hi hb hb' := (hf _ hs.ready.forms).agree hs hi hb hb'

/-! ## Outcomes in another light -/

/-- Ends as `p` ends, with another outcome. -/
def Parser.judged (g : Outcome α → ParserState → Outcome β) (p : Parser α) : Parser β :=
  fun s => (g (p s).1 (p s).2, (p s).2)

section
variable {g : Outcome α → ParserState → Outcome β}

theorem Parser.Attentive.judged (h : p.Attentive b)
    (hg : ∀ a t, ∃ b, g (.matched a) t = .matched b) : (p.judged g).Attentive b where
  proceeds := h.proceeds
  attends {s} hs hb := by
    rcases h.attends hs hb with h | ⟨a, ha, hi⟩
    · exact .inl h
    · obtain ⟨c, hc⟩ := hg a (p s).2
      exact .inr ⟨c, by rw [Parser.judged, ha, hc], hi⟩

theorem Past.judged {r : Outcome α × ParserState} (h : Past k r)
    (hg : ∀ a t, ∃ b, g (.matched a) t = .matched b) : Past k (g r.1 r.2, r.2) := by
  rcases h with h | ⟨a, ha, hi⟩
  · exact .inl h
  · obtain ⟨c, hc⟩ := hg a r.2
    exact .inr ⟨c, by rw [ha, hc], hi⟩

theorem Steady.judged (h : Steady b b' p p') (hg : ∀ a t, ∃ b, g (.matched a) t = .matched b)
    (hin : ∀ k x o t, InStep k x t → g o (t.over x) = g o t) :
    Steady b b' (p.judged g) (p'.judged g) where
  attentive := h.attentive.judged hg
  attentive' := h.attentive'.judged hg
  agree {k x s} hs hi hb hb' := by
    rcases h.agree hs hi hb hb' with ⟨h, h'⟩ | ⟨heq, ht⟩
    · exact .inl ⟨h.judged hg, h'.judged hg⟩
    · refine .inr ⟨?_, ht⟩
      rw [Parser.judged, heq, hin k x _ _ ht]
      rfl

end

/-- The outcome of a parser that has to match. -/
def Outcome.required (o : Outcome α) (t : ParserState) : Outcome α :=
  match o with
  | .noMatch => .failed t.syntaxError
  | o => o

/-- The outcome of a parser that may fail to match. -/
def Outcome.possible : Outcome α → ParserState → Outcome (Option α)
  | .matched a, _ => .matched (some a)
  | .noMatch, _ => .matched none
  | .failed d, _ => .failed d

/-- The outcome of a parser whose failures count as mismatches. -/
def Outcome.forgiven : Outcome α → ParserState → Outcome α
  | .matched a, _ => .matched a
  | _, _ => .noMatch

theorem Steady.committed (h : Steady b b' p p') : Steady b b' p.committed p'.committed := by
  have heq : ∀ p : Parser α, p.committed = p.judged .required := by
    intro p
    funext s
    rw [Parser.committed, Parser.judged]
    cases p s with
    | mk o t => cases o <;> rfl
  rw [heq, heq]
  refine h.judged (fun a _ => ⟨a, rfl⟩) fun k x o t ht => ?_
  cases o with
  | noMatch => exact congrArg Outcome.failed ht.syntaxError
  | matched a => rfl
  | failed d => rfl

theorem Steady.optional (h : Steady b b' p p') : Steady b b' p.optional p'.optional := by
  have heq : ∀ p : Parser α, p.optional = p.judged .possible := by
    intro p
    funext s
    rw [Parser.optional, Parser.judged]
    cases p s with
    | mk o t => cases o <;> rfl
  rw [heq, heq]
  refine h.judged (fun a _ => ⟨some a, rfl⟩) fun k x o t _ => ?_
  cases o <;> rfl

/-! ## Alternatives -/

theorem ParserState.retreat_over (t : ParserState) (outer : String) :
    (t.over x).retreat outer = (t.retreat outer).over x := by
  unfold ParserState.retreat ParserState.over TokenCursor.reset
  cases t.cursor.marks <;> rfl

theorem Attends.read {r : Outcome α × ParserState} (h : Attends s r)
    (hr : ∀ a, r.1 ≠ .matched a) : s.cursor.index ≤ r.2.cursor.furthest := by
  rcases h with h | ⟨a, ha, -⟩
  · exact h
  · exact absurd ha (hr a)

section
variable {production : String}

theorem Parser.Attentive.attempt (h : p.Attentive b) :
    (p.attempt production).Attentive b := by
  constructor
  · intro s hs hb
    have hrun := h.proceeds (s.enter production) (hs.enter _) hb
    rw [Parser.attempt]
    cases hr : p (s.enter production) with
    | mk o t =>
        rw [hr] at hrun
        cases o with
        | noMatch => exact hrun.retreat
        | matched a => exact hrun.keep
        | failed d => exact hrun.keep
  · intro s hs hb
    have hrun := h.proceeds (s.enter production) (hs.enter _) hb
    have hattends := h.attends (hs.enter production) hb
    rw [Parser.attempt]
    cases hr : p (s.enter production) with
    | mk o t =>
        rw [hr] at hrun hattends
        cases o with
        | matched a => exact hattends
        | failed d => exact hattends
        | noMatch =>
            refine .inl ?_
            rw [ParserState.furthest_retreat hrun]
            exact hattends.read (by simp)

theorem InStep.enter (h : InStep k x s) (production : String) :
    InStep k x (s.enter production) where
  ready := h.ready.enter _
  ready_over := h.ready_over.enter _
  same := h.same
  inside := h.inside
  inside_over := h.inside_over
  reached := h.reached
  explored := h.explored

theorem InStep.keep (h : InStep k x t) (hs : InStep k x s)
    (hrun : (s.enter production).Follows t) : InStep k x (t.keep s.production) where
  ready := hrun.keep.ready hs.ready
  ready_over := ⟨h.ready_over.inside, h.ready_over.furthest_inside, h.ready_over.ends,
    h.ready_over.operators, h.ready_over.forms⟩
  same := h.same
  inside := h.inside
  inside_over := h.inside_over
  reached := h.reached
  explored := h.explored

theorem InStep.retreat (h : InStep k x t) (hs : InStep k x s)
    (hrun : (s.enter production).Follows t) : InStep k x (t.retreat s.production) := by
  have hready := hrun.retreat.ready hs.ready
  have hcursor := ParserState.retreat_cursor hrun
  refine ⟨hready, ⟨?_, ?_, h.ready_over.ends, hready.operators, hready.forms⟩, ?_, ?_,
    h.inside_over, ?_, ?_⟩
  · change (t.retreat s.production).cursor.index < x.size
    rw [hcursor]
    exact hs.ready_over.inside
  · change (t.retreat s.production).cursor.furthest < x.size
    rw [hcursor]
    exact h.ready_over.furthest_inside
  · rw [hcursor]
    exact h.same
  · rw [hcursor]
    exact h.inside
  · rw [hcursor]
    exact hs.reached
  · rw [hcursor]
    exact h.explored

theorem Past.attempt (h : Past k (p (s.enter production)))
    (hrun : (s.enter production).Follows (p (s.enter production)).2) :
    Past k (p.attempt production s) := by
  rw [Parser.attempt]
  cases hr : p (s.enter production) with
  | mk o t =>
      rw [hr] at h hrun
      cases o with
      | matched a => exact h
      | failed d => exact h
      | noMatch =>
          refine .inl ?_
          rw [ParserState.furthest_retreat hrun]
          simpa [Past] using h

theorem Steady.attempt (h : Steady b b' p p') :
    Steady b b' (p.attempt production) (p'.attempt production) where
  attentive := h.attentive.attempt
  attentive' := h.attentive'.attempt
  agree {k x s} hs hi hb hb' := by
    have hrun := h.attentive.proceeds (s.enter production) (hs.ready.enter _) hb
    have hrun' := h.attentive'.proceeds ((s.over x).enter production)
      (hs.ready_over.enter _) hb'
    rcases h.agree (hs.enter production) hi hb hb' with ⟨h, h'⟩ | ⟨heq, ht⟩
    · exact .inl ⟨h.attempt hrun, Past.attempt h' hrun'⟩
    · change p' ((s.over x).enter production) = _ at heq
      rw [Parser.attempt, Parser.attempt, heq]
      cases hr : p (s.enter production) with
      | mk o t =>
          rw [hr] at hrun ht
          cases o with
          | matched a => exact .inr ⟨rfl, ht.keep hs hrun⟩
          | failed d => exact .inr ⟨rfl, ht.keep hs hrun⟩
          | noMatch =>
              exact .inr ⟨Prod.ext rfl (t.retreat_over s.production), ht.retreat hs hrun⟩

theorem Steady.tentative (h : Steady b b' p p') :
    Steady b b' (p.tentative production) (p'.tentative production) := by
  have heq : ∀ p : Parser α,
      p.tentative production = (p.judged .forgiven).attempt production := by
    intro p
    funext s
    rw [Parser.tentative, Parser.attempt, Parser.judged]
    cases p (s.enter production) with
    | mk o t => cases o <;> rfl
  rw [heq, heq]
  refine (h.judged (fun a _ => ⟨a, rfl⟩) fun k x o t _ => ?_).attempt
  cases o <;> rfl

end

/-! ## Alternatives in order -/

/-- The parser attends to the next token unless it does not match, and does not
move then: it gives way to another alternative. -/
structure Parser.GivesWay (b : ℕ) (p : Parser α) : Prop where
  proceeds : p.Proceeds b
  attends {s : ParserState} : s.Ready → s.cursor.remaining < b → (p s).1 ≠ .noMatch →
    Attends s (p s)
  restores {s t : ParserState} : s.Ready → p s = (.noMatch, t) →
    t.cursor.index = s.cursor.index

section
variable {q q' : Parser α}

theorem Parser.orElse_of_noMatch (h : p s = (.noMatch, t)) : p.orElse q s = q t := by
  rw [Parser.orElse, h]

theorem Parser.orElse_of_ne (h : (p s).1 ≠ .noMatch) : p.orElse q s = p s := by
  rw [Parser.orElse]
  cases hr : p s with
  | mk o t => cases o <;> simp_all

theorem Parser.Proceeds.orElse (hp : p.Proceeds b) (hq : q.Proceeds b) :
    (p.orElse q).Proceeds b := by
  intro s hs hb
  have hrun := hp s hs hb
  by_cases hn : (p s).1 = .noMatch
  · rw [Parser.orElse_of_noMatch (Prod.ext hn rfl)]
    exact hrun.trans (hq _ (hrun.ready hs) (hrun.remaining_le.trans_lt hb))
  · rwa [Parser.orElse_of_ne hn]

/-- If the first alternative has attended to the next token, so has the choice. -/
theorem Parser.Attentive.orElse (hp : p.Attentive b) (hq : q.Proceeds b) :
    (p.orElse q).Attentive b where
  proceeds := hp.proceeds.orElse hq
  attends {s} hs hb := by
    have hrun := hp.proceeds s hs hb
    by_cases hn : (p s).1 = .noMatch
    · have hread := (hp.attends hs hb).read fun a => by simp [hn]
      rw [Parser.orElse_of_noMatch (Prod.ext hn rfl)]
      exact .inl (hread.trans
        (hq _ (hrun.ready hs) (hrun.remaining_le.trans_lt hb)).furthest)
    · rw [Parser.orElse_of_ne hn]
      exact hp.attends hs hb

/-- A first alternative that gives way leaves the attention to the second. -/
theorem Parser.GivesWay.orElse (hp : p.GivesWay b) (hq : q.Attentive b) :
    (p.orElse q).Attentive b where
  proceeds := hp.proceeds.orElse hq.proceeds
  attends {s} hs hb := by
    have hrun := hp.proceeds s hs hb
    by_cases hn : (p s).1 = .noMatch
    · have hattends := hq.attends (hrun.ready hs) (hrun.remaining_le.trans_lt hb)
      have hindex := hp.restores hs (Prod.ext hn rfl)
      rw [Parser.orElse_of_noMatch (Prod.ext hn rfl)]
      rwa [Attends, hindex] at hattends
    · rw [Parser.orElse_of_ne hn]
      exact hp.attends hs hb hn

theorem Locked.orElse (hp : Locked 0 b b' p p') (hq : Locked 0 b b' q q')
    (hback : ∀ s t, ParserState.Ready s → p s = (.noMatch, t) →
      t.cursor.index = s.cursor.index) :
    Locked 0 b b' (p.orElse q) (p'.orElse q') where
  proceeds := hp.proceeds.orElse hq.proceeds
  proceeds' := hp.proceeds'.orElse hq.proceeds'
  agree {k x s} hs hi hb hb' := by
    have hpast : ∀ {p q : Parser α} {c : ℕ} {s : ParserState}, p.Proceeds c → q.Proceeds c →
        s.Ready → s.cursor.remaining < c → Past k (p s) → Past k (p.orElse q s) := by
      intro p q c s hp hq hs hc h
      have hrun := hp s hs hc
      by_cases hn : (p s).1 = .noMatch
      · have hfar : k < (p s).2.cursor.furthest := by simpa [Past, hn] using h
        rw [Parser.orElse_of_noMatch (Prod.ext hn rfl)]
        exact .inl (hfar.trans_le
          (hq _ (hrun.ready hs) (hrun.remaining_le.trans_lt hc)).furthest)
      · rwa [Parser.orElse_of_ne hn]
    rcases hp.agree hs hi hb hb' with ⟨h, h'⟩ | ⟨heq, ht⟩
    · exact .inl ⟨hpast hp.proceeds hq.proceeds hs.ready hb h,
        hpast hp.proceeds' hq.proceeds' hs.ready_over hb' h'⟩
    · by_cases hn : (p s).1 = .noMatch
      · have hindex := hback s _ hs.ready (Prod.ext hn rfl)
        have hrun := (hp.proceeds s hs.ready hb).remaining_le.trans_lt hb
        have hrun' := (hp.proceeds' _ hs.ready_over hb').remaining_le.trans_lt hb'
        rw [hn] at heq
        rw [heq] at hrun'
        rw [Parser.orElse_of_noMatch (Prod.ext hn rfl), Parser.orElse_of_noMatch heq]
        exact hq.agree ht (by omega) hrun hrun'
      · have hn' : (p' (s.over x)).1 ≠ .noMatch := by rwa [heq]
        rw [Parser.orElse_of_ne hn, Parser.orElse_of_ne hn', heq]
        exact .inr ⟨rfl, ht⟩

end

theorem Steady.orElse {q q' : Parser α} (hp : Steady b b' p p') (hq : Steady b b' q q')
    (hback : ∀ s t, ParserState.Ready s → p s = (.noMatch, t) →
      t.cursor.index = s.cursor.index) :
    Steady b b' (p.orElse q) (p'.orElse q') where
  attentive := hp.attentive.orElse hq.attentive.proceeds
  attentive' := hp.attentive'.orElse hq.attentive'.proceeds
  agree := (hp.locked_zero.orElse hq.locked_zero hback).agree

section
variable {ι : Type} {g g' : ι → Parser α} {fs : List ι}

theorem Parser.Attentive.firstOf (h : ∀ f ∈ fs, (g f).GivesWay b)
    (hex : ∃ f ∈ fs, (g f).Attentive b) : (Parser.firstOf (fs.map g)).Attentive b := by
  have hproceeds : ∀ fs : List ι, (∀ f ∈ fs, (g f).GivesWay b) →
      (Parser.firstOf (fs.map g)).Proceeds b := by
    intro fs h
    induction fs with
    | nil => exact fun s _ _ => .refl s
    | cons f fs ih =>
        exact (h f (by simp)).proceeds.orElse (ih fun f hf => h f (by simp [hf]))
  induction fs with
  | nil => simp at hex
  | cons f fs ih =>
      have hrest : ∀ f ∈ fs, (g f).GivesWay b := fun f hf => h f (by simp [hf])
      obtain ⟨a, ha, hattentive⟩ := hex
      rcases List.mem_cons.mp ha with rfl | ha
      · exact hattentive.orElse (hproceeds fs hrest)
      · exact (h f (by simp)).orElse (ih hrest ⟨a, ha, hattentive⟩)

theorem Steady.firstOf (h : ∀ f ∈ fs, Locked 0 b b' (g f) (g' f))
    (hway : ∀ f ∈ fs, (g f).GivesWay b ∧ (g' f).GivesWay b')
    (hex : ∃ f ∈ fs, (g f).Attentive b ∧ (g' f).Attentive b') :
    Steady b b' (Parser.firstOf (fs.map g)) (Parser.firstOf (fs.map g')) where
  attentive := .firstOf (fun f hf => (hway f hf).1) (hex.imp fun _ h => ⟨h.1, h.2.1⟩)
  attentive' := .firstOf (fun f hf => (hway f hf).2) (hex.imp fun _ h => ⟨h.1, h.2.2⟩)
  agree := by
    have hlocked : Locked 0 b b' (Parser.firstOf (fs.map g)) (Parser.firstOf (fs.map g')) := by
      clear hex
      induction fs with
      | nil => exact .noMatch
      | cons f fs ih =>
          exact (h f (by simp)).orElse
            (ih (fun f hf => h f (by simp [hf])) fun f hf => hway f (by simp [hf]))
            fun s t => (hway f (by simp)).1.restores
    intro k x s hs hi hb hb'
    exact hlocked.agree hs hi hb hb'

end

/-! ## Bounds and repetitions -/

theorem Steady.bounded {F F' : ℕ → Parser α}
    (h : ∀ n n', Steady (min n b) (min n' b') (F n) (F' n')) :
    Steady b b' (Parser.bounded F) (Parser.bounded F') := by
  have hmin : ∀ {s : ParserState} {b : ℕ}, s.cursor.remaining < b →
      s.cursor.remaining < min (s.cursor.remaining + 1) b := by
    intro s b hb
    omega
  constructor
  · exact ⟨fun s hs hb => (h _ 0).attentive.proceeds s hs (hmin hb),
      fun hs hb => (h _ 0).attentive.attends hs (hmin hb)⟩
  · exact ⟨fun s hs hb => (h 0 _).attentive'.proceeds s hs (hmin hb),
      fun hs hb => (h 0 _).attentive'.attends hs (hmin hb)⟩
  · exact fun hs hi hb hb' => (h _ _).agree hs hi (hmin hb) (hmin hb')

/-- Parsers by recursion on a bound: each level is steady if the level below is, in
either run. At level zero there is nothing to show, as no token may be left. -/
theorem Steady.levels {ι : Type} (F F' : ℕ → ι → Parser α) (B B' : ℕ → ℕ) (h0 : B 0 = 0)
    (h0' : B' 0 = 0)
    (hstep : ∀ n n', (∀ i, Steady (B n) (B' n') (F n i) (F' n' i)) →
      ∀ i, Steady (B (n + 1)) (B' (n' + 1)) (F (n + 1) i) (F' (n' + 1) i)) (n n' : ℕ) :
    ∀ i, Steady (B n) (B' n') (F n i) (F' n' i) := by
  have hzero : ∀ p : Parser α, p.Attentive 0 := fun p =>
    ⟨fun _ _ hb => absurd hb (Nat.not_lt_zero _), fun _ hb => absurd hb (Nat.not_lt_zero _)⟩
  induction n generalizing n' with
  | zero =>
      induction n' with
      | zero =>
          intro i
          rw [h0, h0']
          exact ⟨hzero _, hzero _, fun _ _ hb => absurd hb (Nat.not_lt_zero _)⟩
      | succ n' ih =>
          intro i
          have hattentive' := (hstep 0 n' ih i).attentive'
          rw [h0]
          exact ⟨hzero _, hattentive', fun _ _ hb => absurd hb (Nat.not_lt_zero _)⟩
  | succ n ih =>
      cases n' with
      | zero =>
          intro i
          have hattentive := (hstep n 0 (ih 0) i).attentive
          rw [h0']
          exact ⟨hattentive, hzero _, fun _ _ _ hb => absurd hb (Nat.not_lt_zero _)⟩
      | succ n' => exact hstep n n' (ih n')

/-- What a match leaves is less than what was left before it. -/
def Parser.Consumes (p : Parser α) : Prop :=
  ∀ s a t, ParserState.Ready s → p s = (.matched a, t) →
    t.cursor.remaining < s.cursor.remaining

theorem Parser.matched_of_optional {a : α} (h : p.optional s = (.matched (some a), t)) :
    p s = (.matched a, t) := by
  rw [optional] at h
  cases hr : p s with
  | mk o u =>
      rw [hr] at h
      cases o with
      | matched b =>
          cases h
          rfl
      | noMatch => cases h
      | failed d => cases h

theorem Steady.many (h : Steady b b' p p') (hp : p.Consumes) (hp' : p'.Consumes) :
    Steady b b' p.many p'.many := by
  refine .bounded fun n n' => ?_
  refine Steady.levels (fun n (_ : Unit) => p.manyUpTo n) (fun n _ => p'.manyUpTo n)
    (min · b) (min · b') (by simp) (by simp) (fun n n' ih _ => ?_) n n' ()
  -- another item is read with one round less, in front of less tokens
  refine Steady.bind_of (fun a? => if a?.isSome then min n b else min (n + 1) b)
    (fun a? => if a?.isSome then min n' b' else min (n' + 1) b')
    (h.optional.mono (min_le_right _ _) (min_le_right _ _)) ?_ ?_ ?_
  · rintro (_ | a)
    · exact .pure []
    · exact (ih ()).bind fun as => .pure (a :: as)
  · rintro s (_ | a) t hs hb ht
    · exact (h.optional.mono (min_le_right _ _)
        (min_le_right n' _)).attentive.proceeds.remaining_lt hs hb ht
    · have := hp s a t hs (Parser.matched_of_optional ht)
      simp only [Option.isSome_some, if_true]
      omega
  · rintro s (_ | a) t hs hb ht
    · exact (h.optional.mono (min_le_right n _)
        (min_le_right _ _)).attentive'.proceeds.remaining_lt hs hb ht
    · have := hp' s a t hs (Parser.matched_of_optional ht)
      simp only [Option.isSome_some, if_true]
      omega

end ScriptFront
