import ScriptFront.Expr.Parser
import ScriptFront.Proofs.Grammar.Expr
import ScriptFront.Proofs.Parsing.Reading

/-!
# Binding powers and strata

An expression that takes only what binds more tightly than a power is an
expression of one stratum, and each operator of a chain has the power that
separates its stratum from the one below. The sums of ranks and levels say this
without a case for each power: a bound and its stratum add up to four, an
operator and its stratum to five.
-/
namespace ScriptFront

/-- The expressions of tokens that bind more tightly than the power. -/
def BindingPower.stratum : BindingPower → Stratum
  | lowest => .relation
  | relational => .sum
  | additive => .product
  | multiplicative => .suffixed
  | primary => .atom

/-- How tightly a kind of token binds in the language. -/
def TokenKind.level (k : TokenKind) : ℕ := (OperatorTable.standard.power k).level

theorem BindingPower.rank_stratum (p : BindingPower) : p.stratum.rank + p.level = 4 := by
  cases p <;> rfl

theorem TokenKind.level_le (k : TokenKind) : k.level ≤ 4 := by
  cases k <;> decide

namespace OperatorTable

/-- What continues no expression binds with the lowest power. -/
theorem level_eq_zero {k : TokenKind} (h : standard.continuation? k = none) :
    k.level = 0 := by
  cases k <;> first | rfl | cases h

theorem operator_of_binary {k : TokenKind} (h : standard.continuation? k = some .binary) :
    ∃ q op, Stratum.operator? q k = some op ∧ BinaryOp.ofKind? k = some op ∧
      q.rank + k.level = 5 ∧ (standard.power k).stratum = q.tighter := by
  cases k <;> first
    | exact ⟨.product, _, rfl, rfl, rfl, rfl⟩
    | exact ⟨.sum, _, rfl, rfl, rfl, rfl⟩
    | exact ⟨.relation, _, rfl, rfl, rfl, rfl⟩
    | cases h

theorem binary_of_operator {q : Stratum} {k : TokenKind} {op : BinaryOp}
    (h : q.operator? k = some op) :
    standard.continuation? k = some .binary ∧ BinaryOp.ofKind? k = some op ∧
      q.rank + k.level = 5 ∧ (standard.power k).stratum = q.tighter := by
  cases q <;> cases k <;> cases h <;> exact ⟨rfl, rfl, rfl, rfl⟩

theorem openParen_of_call {k : TokenKind} (h : standard.continuation? k = some .call) :
    k = .openParen := by
  cases k <;> first | rfl | cases h

theorem openBracket_of_subscript {k : TokenKind}
    (h : standard.continuation? k = some .subscript) : k = .openBracket := by
  cases k <;> first | rfl | cases h

theorem dot_of_member {k : TokenKind} (h : standard.continuation? k = some .member) :
    k = .dot := by
  cases k <;> first | rfl | cases h

theorem continuation_endOfInput : standard.continuation? .endOfInput = none := rfl

theorem opensExpr_iff {k : TokenKind} :
    k.OpensExpr ↔ (standard.opening? k).isSome := by
  cases k <;> simp [TokenKind.OpensExpr, standard, standardOpening?]

theorem signed_kind {k : TokenKind} (h : standard.opening? k = some .signed) :
    k = .plus ∨ k = .dash ∨ k = .not := by
  cases k <;> first
    | exact .inl rfl
    | exact .inr (.inl rfl)
    | exact .inr (.inr rfl)
    | cases h

theorem grouping_kind {k : TokenKind} (h : standard.opening? k = some .grouping) :
    k = .openParen := by
  cases k <;> first | rfl | cases h

end OperatorTable

/-! ## Single tokens as expressions -/

theorem Expr.spelledBy_of_ofToken {t : Token} {e : Expr} (h : Expr.ofToken t = .ok e) :
    ExprPhrase.SpelledBy (.expr .atom e) [t] := by
  unfold Expr.ofToken at h
  split at h
  case h_1 hk =>
      cases hn : Numeral.integer? t.text.toList with
      | none => simp [hn] at h
      | some n =>
          simp only [hn, Except.ok.injEq] at h
          exact h ▸ .literal (.int hk hn)
  case h_2 hk =>
      cases hx : Numeral.Binary64.ofText? t.text.toList with
      | none => simp [hx] at h
      | some x =>
          simp only [hx, Except.ok.injEq] at h
          exact h ▸ .literal (.float hk hx)
  case h_3 hk => exact Except.ok.inj h ▸ .literal (.bool hk)
  case h_4 hk => exact Except.ok.inj h ▸ .literal (.string hk)
  case h_5 hk => exact Except.ok.inj h ▸ .name hk
  case h_6 => simp at h

theorem Expr.ofToken_literal {value : Literal} {t : Token} (h : value.SpelledBy t) :
    Expr.ofToken t = .ok (.literal value t none) := by
  cases h with
  | int hk hn => simp [Expr.ofToken, hk, hn]
  | float hk hx => simp [Expr.ofToken, hk, hx]
  | bool hk => simp [Expr.ofToken, hk]
  | string hk => simp [Expr.ofToken, hk]

theorem Literal.SpelledBy.opening {value : Literal} {t : Token} (h : value.SpelledBy t) :
    OperatorTable.standard.opening? t.kind = some .primary := by
  cases h <;> simp [OperatorTable.standard, OperatorTable.standardOpening?, *]

theorem Expr.ofToken_name {t : Token} (h : t.kind = .identifier) :
    Expr.ofToken t = .ok (.ident ⟨t, none, none⟩) := by
  simp [Expr.ofToken, h]

/-! ## Steps of the expression parser -/

namespace Parser

variable {sub : BindingPower → Parser Expr} {s : ParserState}

theorem operand_of_opening {o : Opening}
    (h : s.grammar.operators.opening? s.cursor.current.kind = some o) :
    operand sub s = o.parse sub s := by
  unfold operand
  simp only [bind_apply, currentKind, grammar, h]

theorem operand_of_none
    (h : s.grammar.operators.opening? s.cursor.current.kind = none) :
    operand sub s =
      (advance >>= fun token => fail (.unexpected token "expected an expression")) s := by
  unfold operand
  simp only [bind_apply, currentKind, grammar, h]

variable {power : BindingPower} {left : Expr}

theorem parse_binary_of_kind {op : BinaryOp}
    (h : BinaryOp.ofKind? s.cursor.current.kind = some op) :
    Continuation.parse sub left power .binary s =
      (sub power >>= fun right =>
        (pure (.binary op left right s.cursor.current none) : Parser Expr)) s.advanced := by
  simp only [Continuation.parse]
  rw [bind_of_matched (advance_apply s), h]

theorem continuation?_apply :
    continuation? power s =
      (.matched
        (if (s.grammar.operators.power s.cursor.current.kind).level ≤ power.level then none
        else (s.grammar.operators.continuation? s.cursor.current.kind).map
          (·, s.grammar.operators.power s.cursor.current.kind)), s) := by
  change (if (s.grammar.operators.power s.cursor.current.kind).level ≤ power.level then
    (Pure.pure none : Parser _) else _) s = _
  split_ifs <;> rfl

/-- Nothing is added to an expression in front of a token that binds no more
tightly than the bound. -/
theorem climb_of_level_le (n : ℕ)
    (h : (s.grammar.operators.power s.cursor.current.kind).level ≤ power.level) :
    climb sub power (n + 1) left s = (.matched left, s) := by
  rw [climb, bind_of_matched continuation?_apply, if_pos h]
  rfl

theorem climb_of_none (n : ℕ)
    (h : s.grammar.operators.continuation? s.cursor.current.kind = none) :
    climb sub power (n + 1) left s = (.matched left, s) := by
  rw [climb, bind_of_matched continuation?_apply, h]
  split_ifs <;> rfl

theorem climb_of_continuation (n : ℕ) {c : Continuation}
    (h : power.level < (s.grammar.operators.power s.cursor.current.kind).level)
    (hc : s.grammar.operators.continuation? s.cursor.current.kind = some c) :
    climb sub power (n + 1) left s =
      (c.parse sub left (s.grammar.operators.power s.cursor.current.kind) >>=
        climb sub power n) s := by
  rw [climb, bind_of_matched continuation?_apply, if_neg (by omega), hc]
  rfl

end Parser

end ScriptFront
