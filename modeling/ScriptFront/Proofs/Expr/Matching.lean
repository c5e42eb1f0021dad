import ScriptFront.Proofs.Expr.Powers
import ScriptFront.Proofs.Parsing.Matching

/-!
# The expression parser reads every expression

In front of a token that binds no more tightly than the bound, the tokens of an
expression are read as that expression. A chain is not a part of the parser's
run but a stretch of its loop: reading an expression on the left means that
after some rounds the loop stands behind it, with any number of rounds to go.
-/
namespace ScriptFront

open ExprPhrase (SpelledBy)

/-- How tightly the first of the tokens binds. -/
def nextLevel : List Token → ℕ
  | [] => 0
  | t :: _ => t.kind.level

theorem nextLevel_le (r : List Token) : nextLevel r ≤ 4 := by
  cases r with
  | nil => exact Nat.zero_le _
  | cons t _ => exact t.kind.level_le

theorem ParserState.Ready.nextLevel_eq {s : ParserState} {r : List Token} (hs : s.Ready)
    (hr : s.rest = r) : (s.grammar.operators.power s.cursor.current.kind).level =
      nextLevel r := by
  rw [hs.operators, ← hr, hs.rest_eq, nextLevel, TokenKind.level]

namespace Parser

/-- From `s` the loop of a chain comes to stand behind the tokens `w` with the
expression `e`, whatever the number of rounds that are left then. -/
def Grows (n : ℕ) (power : BindingPower) (s : ParserState) (e : Expr) (w : List Token) :
    Prop :=
  ∃ left t u w₁ w₂ k, operand (expressionWithin n) s = (.matched left, t) ∧
    s.Reads w₁ t ∧ t.Reads w₂ u ∧ w = w₁ ++ w₂ ∧ k ≤ w₂.length ∧
    ∀ m, climb (expressionWithin n) power (m + k) left t =
      climb (expressionWithin n) power m e u

variable {n : ℕ} {power : BindingPower} {s : ParserState} {e : Expr} {w r : List Token}

theorem Grows.of_operand (h : (operand (expressionWithin n)).MatchesAt s e w) :
    Grows n power s e w := by
  obtain ⟨t, ht, hw⟩ := h
  exact ⟨e, t, t, w, [], 0, ht, hw, .refl t, by simp, le_rfl, fun _ => rfl⟩

/-- A chain goes on with whatever continues it behind a token that binds more
tightly than the bound. -/
theorem Grows.extend {c : Continuation} {longer : Expr} {t : Token} {v : List Token}
    (h : Grows n power s e w) (hs : s.Ready) (hr : s.rest = w ++ t :: r)
    (hl : power.level < t.kind.level)
    (hc : OperatorTable.standard.continuation? t.kind = some c)
    (hm : ∀ u, u.Ready → u.rest = t :: r →
      (c.parse (expressionWithin n) e (OperatorTable.standard.power t.kind)).MatchesAt u
        longer (t :: v)) :
    Grows n power s longer (w ++ t :: v) := by
  obtain ⟨left, t₁, u, w₁, w₂, k, hop, hw₁, hw₂, rfl, hk, hclimb⟩ := h
  have hwu := hw₁.trans hw₂
  have hu := hwu.ready hs
  have hru := hwu.rest_of_append hr
  obtain rfl := hu.current_eq hru
  obtain ⟨u', hu', hv⟩ := hm u hu hru
  refine ⟨left, t₁, u', w₁, w₂ ++ u.cursor.current :: v, k + 1, hop, hw₁, hw₂.trans hv,
    by simp, ?_, ?_⟩
  · simp only [List.length_append, List.length_cons]
    omega
  · intro m
    have hround := hclimb (m + 1)
    rw [climb_of_continuation m (by rw [hu.operators]; exact hl)
      (by rw [hu.operators]; exact hc), hu.operators, bind_of_matched hu'] at hround
    rw [← hround]
    congr 1
    omega

/-- A chain ends in front of a token that does not bind more tightly than the
bound, and there are rounds enough to get there. -/
theorem Grows.matchesAt (h : Grows n power s e w) (hs : s.Ready) (hr : s.rest = w ++ r)
    (hl : nextLevel r ≤ power.level) :
    (expressionWithin (n + 1) power).MatchesAt s e w := by
  obtain ⟨left, t, u, w₁, w₂, k, hop, hw₁, hw₂, rfl, hk, hclimb⟩ := h
  have hwu := hw₁.trans hw₂
  have hu := hwu.ready hs
  have hrounds : ∃ m, t.cursor.remaining + 1 = m + 1 + k := by
    have hin := hu.inside
    rw [hw₂.stream, hw₂.length] at hin
    exact ⟨t.cursor.remaining - k, by rw [TokenCursor.remaining]; omega⟩
  obtain ⟨m, hm⟩ := hrounds
  refine ⟨u, ?_, hwu⟩
  rw [expressionWithin, bind_of_matched hop, bounded_apply, hm, hclimb,
    climb_of_level_le m (by rwa [hu.nextLevel_eq (hwu.rest_of_append hr)])]

/-! ## Operands -/

variable {sub : BindingPower → Parser Expr} {t : Token}

theorem operand_matchesAt {o : Opening} (hs : s.Ready) (hr : s.rest = t :: r)
    (ho : OperatorTable.standard.opening? t.kind = some o)
    (hm : (o.parse sub).MatchesAt s e w) : (operand sub).MatchesAt s e w := by
  obtain rfl := hs.current_eq hr
  obtain ⟨u, hu, hw⟩ := hm
  exact ⟨u, by rw [operand_of_opening (by rw [hs.operators]; exact ho), hu], hw⟩

theorem operand_matchesAt_of_ofToken (hs : s.Ready) (hr : s.rest = t :: r)
    (ho : OperatorTable.standard.opening? t.kind = some .primary)
    (he : Expr.ofToken t = .ok e) : (operand sub).MatchesAt s e [t] := by
  have hk : t.kind ≠ .endOfInput := by
    intro hk
    simp [hk, OperatorTable.standard, OperatorTable.standardOpening?] at ho
  refine operand_matchesAt hs hr ho (advance_bind hs hr hk fun u _ _ => ?_)
  rw [he]
  exact .pure

theorem operand_matchesAt_name (hs : s.Ready) (hr : s.rest = t :: r)
    (hk : t.kind = .identifier) :
    (operand sub).MatchesAt s (.ident ⟨t, none, none⟩) [t] :=
  operand_matchesAt_of_ofToken hs hr (by rw [hk]; rfl) (Expr.ofToken_name hk)

theorem operand_matchesAt_signed (hs : s.Ready) (hr : s.rest = t :: r)
    (hk : t.kind = .plus ∨ t.kind = .dash ∨ t.kind = .not)
    (hm : ∀ u, u.Ready → u.rest = r → (sub .primary).MatchesAt u e w) :
    (operand sub).MatchesAt s (Expr.ofSign t e) (t :: w) := by
  have ho : OperatorTable.standard.opening? t.kind = some .signed := by
    rcases hk with hk | hk | hk <;> rw [hk] <;> rfl
  refine operand_matchesAt hs hr ho (advance_bind hs hr ?_ fun u hu hru => ?_)
  · rcases hk with hk | hk | hk <;> rw [hk] <;> decide
  · exact (hm u hu hru).bind_pure

/-! ## Phrases -/

/-- The tokens of the phrase are read wherever they stand in front of a token
that does not continue it. An expression is read in a chain with any bound that
its stratum permits. -/
def ReadsPhrase : ExprPhrase → List Token → Prop
  | .expr q e, w => ∀ n power s r, w.length ≤ n → ParserState.Ready s → s.rest = w ++ r →
      q.rank ≤ power.stratum.rank → q.rank + nextLevel r ≤ 5 → Grows n power s e w
  | .arguments es, w => ∀ n m s r closing, w.length < n → w.length ≤ m →
      ParserState.Ready s → s.rest = w ++ closing :: r → closing.kind = .closeParen →
      (Continuation.arguments (expressionWithin n) m).MatchesAt s es w

theorem ReadsPhrase.matchesAt {q : Stratum} (power : BindingPower) (h : ReadsPhrase (.expr q e) w)
    (hn : w.length < n) (hs : s.Ready) (hr : s.rest = w ++ r)
    (hq : q.rank ≤ power.stratum.rank) (hl : nextLevel r ≤ power.level) :
    (expressionWithin n power).MatchesAt s e w := by
  obtain ⟨n, rfl⟩ : ∃ m, n = m + 1 := ⟨n - 1, by omega⟩
  have hpower := power.rank_stratum
  exact (h n power s r (by omega) hs hr hq (by omega)).matchesAt hs hr hl

theorem ReadsPhrase.grows {q : Stratum} (h : ReadsPhrase (.expr q e) w)
    (hn : w.length ≤ n) (hs : s.Ready) (hr : s.rest = w ++ t :: r)
    (hq : q.rank ≤ power.stratum.rank) (hl : q.rank + t.kind.level = 5) :
    Grows n power s e w ∧ power.level < t.kind.level := by
  have hpower := power.rank_stratum
  exact ⟨h n power s _ hn hs hr hq (by rw [nextLevel]; omega), by omega⟩

theorem name_matchesAt (hn : 1 < n) (hs : s.Ready) (hr : s.rest = t :: r)
    (hk : t.kind = .identifier) :
    (expressionWithin n .primary).MatchesAt s (.ident ⟨t, none, none⟩) [t] := by
  obtain ⟨n, rfl⟩ : ∃ m, n = m + 1 := ⟨n - 1, by omega⟩
  exact (Grows.of_operand (operand_matchesAt_name hs hr hk)).matchesAt hs hr (nextLevel_le r)

theorem readsPhrase_group {opening closing : Token} (ho : opening.kind = .openParen)
    (ih : ReadsPhrase (.expr .relation e) w) (hc : closing.kind = .closeParen) :
    ReadsPhrase (.expr .atom e) (opening :: (w ++ [closing])) := by
  intro n power s r hn hs hr _ _
  have hlen : w.length < n := by
    simp only [List.length_cons, List.length_append, List.length_nil] at hn
    omega
  refine .of_operand (operand_matchesAt hs hr (o := .grouping) (by rw [ho]; rfl) ?_)
  refine advance_bind hs hr (by rw [ho]; decide) fun t ht hrt => ?_
  have hrt' : t.rest = w ++ closing :: r := by simpa using hrt
  have hinner := ih.matchesAt .lowest hlen ht hrt' le_rfl
    (by rw [nextLevel, hc]; exact le_rfl)
  refine hinner.bind fun u hu => ?_
  exact expect_bind (hu.ready ht) (hu.rest_of_append hrt') hc (by decide) fun _ _ _ => .pure

/-- A sign is followed by an atom, behind which any token may follow. -/
theorem readsPhrase_signed {sign : Token}
    (hk : sign.kind = .plus ∨ sign.kind = .dash ∨ sign.kind = .not)
    (ih : ReadsPhrase (.expr .atom e) w) :
    ReadsPhrase (.expr .atom (Expr.ofSign sign e)) (sign :: w) := by
  intro n power s r hn hs hr _ _
  refine .of_operand (operand_matchesAt_signed hs hr hk fun u hu hru => ?_)
  exact ih.matchesAt _ (Nat.lt_of_succ_le (by simpa using hn)) hu hru (Nat.zero_le _)
    (nextLevel_le r)

theorem readsPhrase_subscript {a i : Expr} {opening closing : Token} {v : List Token}
    (iha : ReadsPhrase (.expr .suffixed a) w) (ho : opening.kind = .openBracket)
    (ihi : ReadsPhrase (.expr .relation i) v) (hc : closing.kind = .closeBracket) :
    ReadsPhrase (.expr .suffixed (.binary .subscript a i opening none))
      (w ++ opening :: (v ++ [closing])) := by
  intro n power s r hn hs hr hq _
  simp only [List.length_append, List.length_cons, List.length_nil] at hn
  have hr' : s.rest = w ++ opening :: (v ++ closing :: r) := by simpa using hr
  obtain ⟨hgrows, hl⟩ := iha.grows (n := n) (by omega) hs hr' hq (by rw [ho]; rfl)
  refine hgrows.extend (c := .subscript) hs hr' hl (by rw [ho]; rfl) fun u hu hru => ?_
  refine advance_bind hu hru (by rw [ho]; decide) fun t ht hrt => ?_
  have hindex := ihi.matchesAt (n := n) .lowest (by omega) ht hrt le_rfl
    (by rw [nextLevel, hc]; exact le_rfl)
  refine hindex.bind fun t' ht' => ?_
  exact expect_bind (ht'.ready ht) (ht'.rest_of_append hrt) hc (by decide)
    fun _ _ _ => .pure

theorem readsPhrase_member {a : Expr} {dot name : Token}
    (iha : ReadsPhrase (.expr .suffixed a) w) (hd : dot.kind = .dot)
    (hk : name.kind = .identifier) :
    ReadsPhrase (.expr .suffixed (.binary .memberAccess a (.ident ⟨name, none, none⟩) dot none))
      (w ++ [dot, name]) := by
  intro n power s r hn hs hr hq _
  simp only [List.length_append, List.length_cons, List.length_nil] at hn
  have hr' : s.rest = w ++ dot :: name :: r := by simpa using hr
  obtain ⟨hgrows, hl⟩ := iha.grows (n := n) (by omega) hs hr' hq (by rw [hd]; rfl)
  refine hgrows.extend (c := .member) hs hr' hl (by rw [hd]; rfl) fun u hu hru => ?_
  refine advance_bind hu hru (by rw [hd]; decide) fun t ht hrt => ?_
  refine currentKind_bind ht hrt ?_
  rw [if_pos hk]
  exact (name_matchesAt (by omega) ht hrt hk).bind_pure

/-! ## Calls and chains -/

theorem readsPhrase_argument (ih : ReadsPhrase (.expr .relation e) w) (hw : w ≠ []) :
    ReadsPhrase (.arguments [e]) w := by
  intro n m s r closing hn hm hs hr hc
  obtain ⟨m, rfl⟩ : ∃ k, m = k + 1 := ⟨m - 1, by
    have := List.length_pos_iff.mpr hw
    omega⟩
  have hfirst := ih.matchesAt (n := n) .lowest hn hs hr le_rfl
    (by rw [nextLevel, hc]; exact le_rfl)
  have h := hfirst.bind (v := []) (f := fun first => currentKind >>= fun kind =>
    if kind = .comma then advance >>= fun _ =>
      Continuation.arguments (expressionWithin n) m >>= fun rest => Pure.pure (first :: rest)
    else Pure.pure [first]) (b := [e]) fun t ht => by
      refine currentKind_bind (ht.ready hs) (ht.rest_of_append hr) ?_
      rw [if_neg (by rw [hc]; decide)]
      exact .pure
  rwa [List.append_nil] at h

theorem readsPhrase_arguments {es : List Expr} {comma : Token} {v : List Token}
    (ih : ReadsPhrase (.expr .relation e) w) (hcomma : comma.kind = .comma)
    (ihs : ReadsPhrase (.arguments es) v) :
    ReadsPhrase (.arguments (e :: es)) (w ++ comma :: v) := by
  intro n m s r closing hn hm hs hr hc
  simp only [List.length_append, List.length_cons] at hn hm
  obtain ⟨m, rfl⟩ : ∃ k, m = k + 1 := ⟨m - 1, by omega⟩
  have hr' : s.rest = w ++ comma :: (v ++ closing :: r) := by simpa using hr
  have hfirst := ih.matchesAt (n := n) .lowest (by omega) hs hr' le_rfl
    (by rw [nextLevel, hcomma]; exact le_rfl)
  refine hfirst.bind fun t ht => ?_
  have hrt := ht.rest_of_append hr'
  refine currentKind_bind (ht.ready hs) hrt ?_
  rw [if_pos hcomma]
  refine advance_bind (ht.ready hs) hrt (by rw [hcomma]; decide) fun u hu hru => ?_
  exact (ihs n m u r closing (by omega) (by omega) hu hru hc).bind_pure

/-- What stands between the parentheses of a call decides how the call ends. -/
theorem readsPhrase_call {callee : Ident} {args : List Expr} {opening : Token}
    {v : List Token} (ih : ReadsPhrase (.expr .suffixed (.ident callee)) w)
    (ho : opening.kind = .openParen)
    (hargs : ∀ n s r, v.length < n → ParserState.Ready s → s.rest = v ++ r →
      (Continuation.argumentsAndClose (expressionWithin n)).MatchesAt s args v) :
    ReadsPhrase (.expr .suffixed (.call callee args opening none)) (w ++ opening :: v) := by
  intro n power s r hn hs hr hq _
  simp only [List.length_append, List.length_cons] at hn
  have hr' : s.rest = w ++ opening :: (v ++ r) := by simpa using hr
  obtain ⟨hgrows, hl⟩ := ih.grows (n := n) (by omega) hs hr' hq (by rw [ho]; rfl)
  refine hgrows.extend (c := .call) hs hr' hl (by rw [ho]; rfl) fun u hu hru => ?_
  refine advance_bind hu hru (by rw [ho]; decide) fun t ht hrt => ?_
  exact (hargs n t r (by omega) ht hrt).bind_pure

theorem argumentsAndClose_matchesAt_nil {closing : Token} (hs : s.Ready)
    (hr : s.rest = closing :: r) (hc : closing.kind = .closeParen) :
    (Continuation.argumentsAndClose sub).MatchesAt s [] [closing] := by
  refine currentKind_bind hs hr ?_
  rw [if_pos hc]
  exact advance_bind hs hr (by rw [hc]; decide) fun _ _ _ => .pure

theorem argumentsAndClose_matchesAt {args : List Expr} {closing : Token}
    (ih : ReadsPhrase (.arguments args) w) (hw : SpelledBy (.arguments args) w)
    (hn : w.length < n) (hs : s.Ready) (hr : s.rest = w ++ closing :: r)
    (hc : closing.kind = .closeParen) :
    (Continuation.argumentsAndClose (expressionWithin n)).MatchesAt s args
      (w ++ [closing]) := by
  obtain ⟨t, v, rfl, ht⟩ := hw.opens
  have hk : t.kind ≠ .closeParen := by
    intro hk
    simp [TokenKind.OpensExpr, hk] at ht
  refine currentKind_bind hs hr ?_
  rw [if_neg hk]
  have hrounds : (t :: v).length ≤ s.cursor.remaining + 1 :=
    (ParserState.length_le_remaining hr).trans (Nat.le_succ _)
  have hall : (bounded (Continuation.arguments (expressionWithin n))).MatchesAt s args
      (t :: v) := ih n _ s r closing hn hrounds hs hr hc
  refine hall.bind fun u hu => ?_
  exact expect_bind (hu.ready hs) (hu.rest_of_append hr) hc (by decide) fun _ _ _ => .pure

theorem readsPhrase_binary {q : Stratum} {op : BinaryOp} {a b : Expr} {v : List Token}
    (hop : q.operator? t.kind = some op) (iha : ReadsPhrase (.expr q a) w)
    (ihb : ReadsPhrase (.expr q.tighter b) v) :
    ReadsPhrase (.expr q (.binary op a b t none)) (w ++ t :: v) := by
  obtain ⟨hc, hkind, hrank, hpower⟩ := OperatorTable.binary_of_operator hop
  have hk : t.kind ≠ .endOfInput := by
    intro hk
    rw [hk, OperatorTable.continuation_endOfInput] at hc
    simp at hc
  intro n power s r hn hs hr hq hnext
  simp only [List.length_append, List.length_cons] at hn
  have hr' : s.rest = w ++ t :: (v ++ r) := by simpa using hr
  obtain ⟨hgrows, hl⟩ := iha.grows (n := n) (by omega) hs hr' hq hrank
  refine hgrows.extend (c := .binary) hs hr' hl hc fun u hu hru => ?_
  refine advance_bind hu hru hk fun u' hu' hru' => ?_
  rw [hkind]
  -- the operand on the right takes no operator of the same stratum
  have hright : nextLevel r ≤ (OperatorTable.standard.power t.kind).level := by
    rw [TokenKind.level] at hrank
    omega
  exact (ihb.matchesAt _ (by omega) hu' hru' (by rw [hpower]) hright).bind_pure

/-- The induction follows the grammar, with one case for each of its rules. -/
theorem readsPhrase {p : ExprPhrase} (h : p.SpelledBy w) : ReadsPhrase p w := by
  induction h with
  | literal hv =>
      intro n power s r _ hs hr _ _
      exact .of_operand (operand_matchesAt_of_ofToken hs hr hv.opening (Expr.ofToken_literal hv))
  | name hk =>
      intro n power s r _ hs hr _ _
      exact .of_operand (operand_matchesAt_name hs hr hk)
  | group ho _ hc ih => exact readsPhrase_group ho ih hc
  | plus hk _ ih => simpa [Expr.ofSign, hk] using readsPhrase_signed (.inl hk) ih
  | neg hk _ ih => simpa [Expr.ofSign, hk] using readsPhrase_signed (.inr (.inl hk)) ih
  | not hk _ ih => simpa [Expr.ofSign, hk] using readsPhrase_signed (.inr (.inr hk)) ih
  | subscript _ ho _ hc iha ihi => exact readsPhrase_subscript iha ho ihi hc
  | member _ hd hk ih => exact readsPhrase_member ih hd hk
  | callEmpty _ ho hc ih =>
      exact readsPhrase_call ih ho fun n s r _ hs hr => argumentsAndClose_matchesAt_nil hs hr hc
  | call _ ho hargs hc ih ihargs =>
      refine readsPhrase_call ih ho fun n s r hn hs hr => ?_
      exact argumentsAndClose_matchesAt ihargs hargs
        (by simp only [List.length_append, List.length_cons] at hn; omega) hs
        (by simpa using hr) hc
  | binary hop _ _ iha ihb => exact readsPhrase_binary hop iha ihb
  | @tighter q _ _ _ _ ih =>
      have hq := q.rank_tighter
      intro n power s r hn hs hr hpower hnext
      exact ih n power s r hn hs hr (by omega) (by omega)
  | argument he ih => exact readsPhrase_argument ih he.ne_nil
  | arguments _ hcomma _ ih ihs => exact readsPhrase_arguments ih hcomma ihs

/-- An expression is read where the token behind it does not bind more tightly
than the bound. -/
theorem expression_matchesAt (power : BindingPower) (h : Expr.Of power.stratum e w) (hs : s.Ready)
    (hr : s.rest = w ++ r) (hl : nextLevel r ≤ power.level) :
    (expression power).MatchesAt s e w := by
  have hn : w.length < s.cursor.remaining + 1 :=
    Nat.lt_succ_of_le (ParserState.length_le_remaining hr)
  exact (readsPhrase h).matchesAt power hn hs hr le_rfl hl

theorem expression?_matchesAt (h : e.SpelledBy w) (hs : s.Ready) (hr : s.rest = w ++ r)
    (hl : nextLevel r = 0) : expression?.MatchesAt s e w :=
  (expression_matchesAt .lowest h (hs.enter _) hr hl.le).tentative

theorem expression?_declinesAt (hs : s.Ready) (hr : s.rest = t :: r)
    (hk : ¬ t.kind.OpensExpr) : expression?.DeclinesAt s := by
  have hs' := hs.enter "expression"
  obtain rfl := hs.current_eq hr
  have ho : s.grammar.operators.opening? s.cursor.current.kind = none := by
    rw [hs.operators]
    simpa [OperatorTable.opensExpr_iff] using hk
  have hop : operand (expressionWithin s.cursor.remaining) (s.enter "expression") =
      (.failed _, (s.enter "expression").advanced) := operand_of_none ho
  exact tentative_declinesAt (bind_of_failed hop) (by simp) (s.enter _).follows_advanced

end Parser

end ScriptFront
