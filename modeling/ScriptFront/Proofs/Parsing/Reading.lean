import Mathlib.Order.MinMax
import Mathlib.Tactic.Common
import ScriptFront.Parser

/-!
# Reading on in a token stream

What a parser state has still to read, and what it means that one state is
reached from another by reading. Reading never changes the stream, the marks,
the production or the tables, and neither the place nor the furthest read moves
back. `Follows` says this much of every run, `Reads` says in addition which
tokens lie between the two states.

A state is ready if it stands inside a stream that closes with an end mark, and
works from the operators and all the forms of statement of the language. The
order of the forms is left open.
-/
namespace ScriptFront

namespace TokenStream

/-- The tokens in order, the last one included. -/
def toList (s : TokenStream) : List Token := s.body.toList ++ [s.last]

@[simp] theorem length_toList (s : TokenStream) : s.toList.length = s.size := by
  simp [toList, size]

theorem getElem?_toList (s : TokenStream) {i : Nat} (h : i < s.size) :
    s.toList[i]? = some (s.get i) := by
  rw [toList, get, Array.getD_eq_getD_getElem?]
  by_cases hi : i < s.body.size
  · rw [List.getElem?_append_left (by simpa using hi)]
    simp [hi]
  · have he : i = s.body.size := by rw [size] at h; omega
    rw [List.getElem?_append_right (by simp [he])]
    simp [he]

theorem drop_toList (s : TokenStream) {i : Nat} (h : i < s.size) :
    s.toList.drop i = s.get i :: s.toList.drop (i + 1) := by
  have hl : i < s.toList.length := by simpa using h
  have hg := s.getElem?_toList h
  rw [List.getElem?_eq_getElem hl] at hg
  rw [List.drop_eq_getElem_cons hl, Option.some.inj hg]

@[simp] theorem toList_ofList (ts : List Token) (t : Token) :
    (ofList (ts ++ [t])).toList = ts ++ [t] := by
  simp [ofList, toList, List.getLastD_eq_getLast?]

@[simp] theorem last_ofList (ts : List Token) (t : Token) :
    (ofList (ts ++ [t])).last = t := by
  simp [ofList, List.getLastD_eq_getLast?]

end TokenStream

namespace ParserState

def tokens (s : ParserState) : List Token := s.cursor.stream.toList

/-- The tokens that are still to be read. -/
def rest (s : ParserState) : List Token := s.tokens.drop s.cursor.index

/-- The state stands inside a stream with an end mark, and works from the tables
of the language, in any order of the forms. -/
structure Ready (s : ParserState) : Prop where
  inside : s.cursor.index < s.cursor.stream.size
  furthest_inside : s.cursor.furthest < s.cursor.stream.size
  ends : s.cursor.stream.last.kind = .endOfInput
  operators : s.grammar.operators = .standard
  forms : ∀ f, f ∈ s.grammar.forms

/-- The state `t` can be left behind by a parser that starts from `s`. -/
structure Follows (s t : ParserState) : Prop where
  stream : t.cursor.stream = s.cursor.stream
  marks : t.cursor.marks = s.cursor.marks
  production : t.production = s.production
  grammar : t.grammar = s.grammar
  index : s.cursor.index ≤ t.cursor.index
  furthest : s.cursor.furthest ≤ t.cursor.furthest
  ready : s.Ready → t.Ready

/-- The state `t` is reached from `s` by reading the tokens `w`. -/
structure Reads (s : ParserState) (w : List Token) (t : ParserState) : Prop
    extends Follows s t where
  length : t.cursor.index = s.cursor.index + w.length
  rest_eq : s.rest = w ++ t.rest

theorem Follows.refl (s : ParserState) : s.Follows s :=
  ⟨rfl, rfl, rfl, rfl, le_rfl, le_rfl, id⟩

theorem Follows.trans {s t u : ParserState} (h : s.Follows t) (k : t.Follows u) :
    s.Follows u where
  stream := k.stream.trans h.stream
  marks := k.marks.trans h.marks
  production := k.production.trans h.production
  grammar := k.grammar.trans h.grammar
  index := h.index.trans k.index
  furthest := h.furthest.trans k.furthest
  ready := k.ready ∘ h.ready

theorem Follows.tokens {s t : ParserState} (h : s.Follows t) : t.tokens = s.tokens := by
  rw [ParserState.tokens, h.stream, ParserState.tokens]

theorem Follows.rest_eq_of_index {s t : ParserState} (h : s.Follows t)
    (hi : t.cursor.index = s.cursor.index) : t.rest = s.rest := by
  rw [rest, rest, h.tokens, hi]

theorem Follows.reads_nil {s t : ParserState} (h : s.Follows t)
    (hi : t.cursor.index = s.cursor.index) : s.Reads [] t where
  toFollows := h
  length := by simpa using hi
  rest_eq := by simpa using (h.rest_eq_of_index hi).symm

theorem Reads.refl (s : ParserState) : s.Reads [] s := (Follows.refl s).reads_nil rfl

theorem Reads.trans {s t u : ParserState} {w v : List Token} (h : s.Reads w t)
    (k : t.Reads v u) : s.Reads (w ++ v) u where
  toFollows := h.toFollows.trans k.toFollows
  length := by rw [k.length, h.length, List.length_append, Nat.add_assoc]
  rest_eq := by rw [h.rest_eq, k.rest_eq, List.append_assoc]

theorem Reads.rest_of_append {s t : ParserState} {w r : List Token} (h : s.Reads w t)
    (hr : s.rest = w ++ r) : t.rest = r :=
  List.append_cancel_left (h.rest_eq.symm.trans hr)

/-! ## The place of a ready state -/

theorem length_rest (s : ParserState) :
    s.rest.length = s.cursor.stream.size - s.cursor.index := by
  simp [rest, tokens]

theorem Ready.rest_eq {s : ParserState} (h : s.Ready) :
    s.rest = s.cursor.current :: s.tokens.drop (s.cursor.index + 1) :=
  s.cursor.stream.drop_toList h.inside

theorem Ready.current_eq {s : ParserState} {t : Token} {r : List Token} (h : s.Ready)
    (hr : s.rest = t :: r) : s.cursor.current = t := by
  rw [h.rest_eq] at hr
  exact (List.cons.inj hr).1

theorem Ready.next_inside {s : ParserState} (h : s.Ready)
    (hk : s.cursor.current.kind ≠ .endOfInput) :
    s.cursor.index + 1 < s.cursor.stream.size := by
  have hlt := h.inside
  by_contra hn
  have hi : s.cursor.index = s.cursor.stream.body.size := by
    rw [TokenStream.size] at hlt hn
    omega
  apply hk
  rw [TokenCursor.current, TokenStream.get, hi]
  simpa using h.ends

theorem Ready.exists_next {s : ParserState} {t : Token} {r : List Token} (h : s.Ready)
    (hr : s.rest = t :: r) (hk : t.kind ≠ .endOfInput) : ∃ t' r', r = t' :: r' := by
  have hlen := s.length_rest
  obtain rfl := h.current_eq hr
  have hin := h.next_inside hk
  cases r with
  | nil =>
      rw [hr, List.length_singleton] at hlen
      omega
  | cons t' r' => exact ⟨t', r', rfl⟩

theorem length_le_remaining {s : ParserState} {w r : List Token} (hr : s.rest = w ++ r) :
    w.length ≤ s.cursor.remaining := by
  have hlen := s.length_rest
  rw [hr, List.length_append] at hlen
  rw [TokenCursor.remaining]
  omega

/-! ## Before the first token -/

section
variable (body : List Token) {last : Token} (production : String)

@[simp] theorem rest_ofTokens (last : Token) :
    (ofTokens (body ++ [last]) production).rest = body ++ [last] :=
  TokenStream.toList_ofList body last

theorem ready_ofTokens (h : last.kind = .endOfInput) :
    (ofTokens (body ++ [last]) production).Ready where
  inside := Nat.zero_lt_succ _
  furthest_inside := Nat.zero_lt_succ _
  ends := (congrArg Token.kind (TokenStream.last_ofList body last)).trans h
  operators := rfl
  forms := StmtForm.mem_order

end

/-- If the only end mark comes last, then whoever stands in front of one has read
everything else. -/
theorem Ready.eq_body {s : ParserState} {w body : List Token} {last : Token} (hs : s.Ready)
    (hk : s.cursor.current.kind = .endOfInput) (hbody : ∀ t ∈ body, t.kind ≠ .endOfInput)
    (h : w ++ s.rest = body ++ [last]) : w = body := by
  rw [hs.rest_eq] at h
  rcases List.append_eq_append_iff.mp h with ⟨v, hv, hlast⟩ | ⟨v, hv, hlast⟩
  · cases v with
    | nil => simpa using hv.symm
    | cons t v =>
        obtain rfl := (List.cons.inj hlast).1
        exact absurd hk (hbody _ (by simp [hv]))
  · cases v with
    | nil => simpa using hv
    | cons t v =>
        have := congrArg List.length hlast
        simp at this

/-! ## Reading one token -/

def advanced (s : ParserState) : ParserState :=
  { s with cursor := (s.cursor.record s.production).step }

theorem record_eq (c : TokenCursor) (production : String) :
    (c.record production).stream = c.stream ∧ (c.record production).index = c.index ∧
      (c.record production).marks = c.marks ∧
      (c.record production).furthest = max c.furthest c.index := by
  unfold TokenCursor.record
  split_ifs with h
  · exact ⟨rfl, rfl, rfl, (max_eq_right h.le).symm⟩
  · exact ⟨rfl, rfl, rfl, (max_eq_left (not_lt.mp h)).symm⟩

theorem step_eq (c : TokenCursor) :
    c.step.stream = c.stream ∧ c.step.marks = c.marks ∧ c.step.furthest = c.furthest ∧
      c.step.index = if c.index + 1 < c.stream.size then c.index + 1 else c.index := by
  unfold TokenCursor.step
  split_ifs <;> exact ⟨rfl, rfl, rfl, rfl⟩

theorem furthest_advanced (s : ParserState) :
    s.advanced.cursor.furthest = max s.cursor.furthest s.cursor.index := by
  rw [advanced, (step_eq _).2.2.1, (record_eq _ _).2.2.2]

theorem index_advanced (s : ParserState) :
    s.advanced.cursor.index =
      if s.cursor.index + 1 < s.cursor.stream.size then s.cursor.index + 1
      else s.cursor.index := by
  rw [advanced, (step_eq _).2.2.2, (record_eq _ _).1, (record_eq _ _).2.1]

theorem follows_advanced (s : ParserState) : s.Follows s.advanced where
  stream := (step_eq _).1.trans (record_eq _ _).1
  marks := (step_eq _).2.1.trans (record_eq _ _).2.2.1
  production := rfl
  grammar := rfl
  index := by rw [index_advanced]; split_ifs <;> omega
  furthest := by rw [furthest_advanced]; exact le_max_left _ _
  ready h := by
    have hs : s.advanced.cursor.stream = s.cursor.stream :=
      (step_eq _).1.trans (record_eq _ _).1
    refine ⟨?_, ?_, ?_, h.operators, h.forms⟩
    · rw [index_advanced, hs]
      split_ifs with hi
      · exact hi
      · exact h.inside
    · rw [furthest_advanced, hs]
      exact max_lt h.furthest_inside h.inside
    · rw [hs]
      exact h.ends

/-- A token that is not the end mark is read and left behind. -/
theorem Ready.reads_advanced {s : ParserState} (h : s.Ready)
    (hk : s.cursor.current.kind ≠ .endOfInput) :
    s.Reads [s.cursor.current] s.advanced := by
  have hi : s.advanced.cursor.index = s.cursor.index + 1 := by
    rw [index_advanced, if_pos (h.next_inside hk)]
  refine ⟨s.follows_advanced, hi, ?_⟩
  rw [h.rest_eq, rest, s.follows_advanced.tokens, hi]
  rfl

/-! ## Attempts -/

theorem Ready.enter {s : ParserState} (h : s.Ready) (production : String) :
    (s.enter production).Ready :=
  ⟨h.inside, h.furthest_inside, h.ends, h.operators, h.forms⟩

@[simp] theorem rest_enter (s : ParserState) (production : String) :
    (s.enter production).rest = s.rest := rfl

/-- The mark that an attempt has set is on top when its alternative ends, so
that removing it leaves the marks as they were. -/
theorem Follows.keep {s t : ParserState} {production : String}
    (h : (s.enter production).Follows t) : s.Follows (t.keep s.production) where
  stream := h.stream
  marks := by
    change t.cursor.marks.tail = s.cursor.marks
    rw [h.marks]
    rfl
  production := rfl
  grammar := h.grammar
  index := h.index
  furthest := h.furthest
  ready hs := by
    have ht := h.ready (hs.enter production)
    exact ⟨ht.inside, ht.furthest_inside, ht.ends, ht.operators, ht.forms⟩

theorem retreat_cursor {s t : ParserState} {production : String}
    (h : (s.enter production).Follows t) :
    (t.retreat s.production).cursor =
      { t.cursor with index := s.cursor.index, marks := s.cursor.marks } := by
  have hm : t.cursor.marks = s.cursor.index :: s.cursor.marks := h.marks
  simp only [retreat, TokenCursor.reset, hm]

theorem Follows.retreat {s t : ParserState} {production : String}
    (h : (s.enter production).Follows t) : s.Follows (t.retreat s.production) where
  stream := by rw [retreat_cursor h]; exact h.stream
  marks := by rw [retreat_cursor h]
  production := rfl
  grammar := h.grammar
  index := by rw [retreat_cursor h]
  furthest := by rw [retreat_cursor h]; exact h.furthest
  ready hs := by
    have ht := h.ready (hs.enter production)
    have hst : t.cursor.stream = s.cursor.stream := h.stream
    refine ⟨?_, ?_, ?_, ht.operators, ht.forms⟩ <;> rw [retreat_cursor h]
    · simpa only [hst] using hs.inside
    · exact ht.furthest_inside
    · exact ht.ends

theorem index_retreat {s t : ParserState} {production : String}
    (h : (s.enter production).Follows t) :
    (t.retreat s.production).cursor.index = s.cursor.index := by
  rw [retreat_cursor h]

theorem furthest_retreat {s t : ParserState} {production : String}
    (h : (s.enter production).Follows t) :
    (t.retreat s.production).cursor.furthest = t.cursor.furthest := by
  rw [retreat_cursor h]

theorem Reads.keep {s t : ParserState} {production : String} {w : List Token}
    (h : (s.enter production).Reads w t) : s.Reads w (t.keep s.production) :=
  ⟨h.toFollows.keep, h.length, h.rest_eq⟩

end ParserState

/-! ## Runs of the basic parsers -/

namespace Parser

variable {α β : Type}

theorem bind_apply (p : Parser α) (f : α → Parser β) (s : ParserState) :
    (p >>= f) s =
      match p s with
      | (.matched a, t) => f a t
      | (.noMatch, t) => (.noMatch, t)
      | (.failed d, t) => (.failed d, t) := rfl

/-- A step that matches hands over to the next. -/
theorem bind_of_matched {p : Parser α} {f : α → Parser β} {s t : ParserState} {a : α}
    (h : p s = (.matched a, t)) : (p >>= f) s = f a t := by
  rw [bind_apply, h]

theorem bind_of_noMatch {p : Parser α} {f : α → Parser β} {s t : ParserState}
    (h : p s = (.noMatch, t)) : (p >>= f) s = (.noMatch, t) := by
  rw [bind_apply, h]

theorem bind_of_failed {p : Parser α} {f : α → Parser β} {s t : ParserState}
    {d : Diagnostic} (h : p s = (.failed d, t)) : (p >>= f) s = (.failed d, t) := by
  rw [bind_apply, h]

theorem bind_eq_matched {p : Parser α} {f : α → Parser β} {s t : ParserState} {b : β} :
    (p >>= f) s = (.matched b, t) ↔
      ∃ a u, p s = (.matched a, u) ∧ f a u = (.matched b, t) := by
  rw [bind_apply]
  cases p s with
  | mk o u => cases o <;> simp

theorem advance_apply (s : ParserState) :
    advance s = (.matched s.cursor.current, s.advanced) := rfl

theorem accept_apply (kind : TokenKind) (s : ParserState) :
    accept kind s =
      if s.cursor.current.kind = kind then (.matched s.cursor.current, s.advanced)
      else (.noMatch, s.advanced) := by
  rw [accept, bind_of_matched (advance_apply s)]
  split_ifs <;> rfl

theorem expect_apply (kind : TokenKind) (s : ParserState) :
    expect kind s =
      if s.cursor.current.kind = kind then (.matched s.cursor.current, s.advanced)
      else
        (.failed (.unexpected s.cursor.current ("expected " ++ kind.name)), s.advanced) := by
  rw [expect, bind_of_matched (advance_apply s)]
  split_ifs <;> rfl

theorem bounded_apply (p : ℕ → Parser α) (s : ParserState) :
    bounded p s = p (s.cursor.remaining + 1) s := rfl

/-! ## What a match ensures -/

/-- Whatever the parser matches from `s`, with the state that is left behind,
satisfies `Q`. -/
def Ensures (p : Parser α) (s : ParserState) (Q : α → ParserState → Prop) : Prop :=
  ∀ a t, p s = (.matched a, t) → Q a t

namespace Ensures

variable {p : Parser α} {s : ParserState} {Q : α → ParserState → Prop}

theorem pure {a : α} (h : Q a s) : (Pure.pure a : Parser α).Ensures s Q := by
  rintro _ _ ⟨⟩
  exact h

theorem noMatch : (Parser.noMatch : Parser α).Ensures s Q := nofun

theorem stop : (Parser.stop : Parser α).Ensures s Q := nofun

theorem bind {f : α → Parser β} {R : β → ParserState → Prop}
    (h : ∀ a t, p s = (.matched a, t) → (f a).Ensures t R) : (p >>= f).Ensures s R := by
  intro b u hu
  obtain ⟨a, t, ht, hf⟩ := bind_eq_matched.mp hu
  exact h a t ht b u hf

theorem attempt {production : String}
    (h : p.Ensures (s.enter production) fun a t => Q a (t.keep s.production)) :
    (p.attempt production).Ensures s Q := by
  intro a t ht
  rw [Parser.attempt] at ht
  cases hr : p (s.enter production) with
  | mk o u =>
      rw [hr] at ht
      cases o <;> simp only [Prod.mk.injEq, Outcome.matched.injEq, reduceCtorEq, false_and] at ht
      obtain ⟨rfl, rfl⟩ := ht
      exact h _ _ hr

theorem committed (h : p.Ensures s Q) : p.committed.Ensures s Q := by
  intro a t ht
  rw [Parser.committed] at ht
  cases hr : p s with
  | mk o u =>
      rw [hr] at ht
      cases o <;> simp only [Prod.mk.injEq, Outcome.matched.injEq, reduceCtorEq, false_and] at ht
      obtain ⟨rfl, rfl⟩ := ht
      exact h _ _ hr

theorem firstOf {ps : List (Parser α)} (h : ∀ p ∈ ps, ∀ t, p.Ensures t Q) :
    (Parser.firstOf ps).Ensures s Q := by
  induction ps generalizing s with
  | nil => exact noMatch
  | cons p ps ih =>
      intro a t ht
      rw [Parser.firstOf, orElse] at ht
      cases hr : p s with
      | mk o u =>
          rw [hr] at ht
          cases o with
          | matched b =>
              cases ht
              exact h p (by simp) s _ _ hr
          | failed d => simp at ht
          | noMatch => exact ih (fun q hq => h q (by simp [hq])) a t ht

end Ensures

end Parser

end ScriptFront
