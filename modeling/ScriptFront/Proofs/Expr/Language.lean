import ScriptFront.Proofs.Expr.Matching
import ScriptFront.Proofs.Expr.Recognition
import ScriptFront.Proofs.Token.Numbers

/-!
# The language of expressions

The expression parser accepts a list of tokens exactly if the tokens in front of
the end mark spell an expression, and returns the tree that they spell. Since a
run has one result, no tokens spell two trees.
-/
namespace ScriptFront

variable {body : List Token} {last : Token}

theorem Expr.spelledBy_of_ofTokens (hlast : last.kind = .endOfInput)
    (hbody : ∀ t ∈ body, t.kind ≠ .endOfInput) {e : Expr}
    (h : Expr.ofTokens (body ++ [last]) = .ok e) : e.SpelledBy body := by
  have hs := ParserState.ready_ofTokens body "expression" hlast
  have hrun := readsExprs_expression.recognizes .lowest _ hs
  rw [ofTokens, Parser.result, Parser.wholeExpression, Parser.bind_apply] at h
  cases hr : Parser.expression .lowest (.ofTokens (body ++ [last]) "expression") with
  | mk o t =>
      rw [hr] at h hrun
      cases o with
      | noMatch => simp at h
      | failed d => simp at h
      | matched a =>
          obtain ⟨w, hw, ha⟩ := hrun.sound a rfl
          by_cases hk : t.cursor.current.kind = .endOfInput
          · have he : a = e := by
              simpa [Parser.bind_apply, Parser.currentKind, hk, Pure.pure, Parser.pure] using h
            have hrest := hw.rest_eq
            rw [ParserState.rest_ofTokens] at hrest
            rw [(hw.ready hs).eq_body hk hbody hrest.symm] at ha
            exact he ▸ ha
          · simp [Parser.bind_apply, Parser.currentKind, hk, Parser.advance, Parser.stop] at h

theorem Expr.ofTokens_of_spelledBy (hlast : last.kind = .endOfInput) {e : Expr}
    (h : e.SpelledBy body) : Expr.ofTokens (body ++ [last]) = .ok e := by
  have hs := ParserState.ready_ofTokens body "expression" hlast
  have hr := ParserState.rest_ofTokens body "expression" last
  have hl : nextLevel [last] = 0 := by
    rw [nextLevel, hlast]
    rfl
  obtain ⟨t, ht, hw⟩ := Parser.expression_matchesAt .lowest h hs hr hl.le
  have hk : t.cursor.current.kind = .endOfInput := by
    rw [(hw.ready hs).current_eq (hw.rest_of_append hr), hlast]
  have hmatch : Parser.wholeExpression (.ofTokens (body ++ [last]) "expression") =
      (.matched e, t) := by
    rw [Parser.wholeExpression, Parser.bind_of_matched ht]
    change (if t.cursor.current.kind = .endOfInput then Pure.pure e else _ : Parser Expr) t = _
    rw [if_pos hk]
    rfl
  rw [ofTokens, Parser.result, hmatch]

/-- The tokens that the parser accepts in front of an end mark, with their tree. -/
def Expr.Accepted (e : Expr) (w : List Token) : Prop :=
  (∀ t ∈ w, t.kind ≠ .endOfInput) ∧
    ∃ last : Token, last.kind = .endOfInput ∧ Expr.ofTokens (w ++ [last]) = .ok e

theorem Expr.accepted_eq : Expr.Accepted = Expr.SpelledBy := by
  funext e w
  refine propext ⟨?_, ?_⟩
  · rintro ⟨hw, last, hlast, h⟩
    exact Expr.spelledBy_of_ofTokens hlast hw h
  · intro h
    exact ⟨h.ne_endOfInput, TokenKind.endOfInput.sample, rfl, Expr.ofTokens_of_spelledBy rfl h⟩

/-- The expression parser accepts exactly the tokens of an expression in front of
the end mark. The tree is the only one that the tokens spell, and every token
with the kind of a literal counts as one. -/
theorem Expr.stratified_language (hlast : last.kind = .endOfInput)
    (hbody : ∀ t ∈ body, t.kind ≠ .endOfInput ∧ t.Numeric) :
    (∀ e, Expr.ofTokens (body ++ [last]) = .ok e ↔ e.SpelledBy body) ∧
      (∀ e e' : Expr, e.SpelledBy body → e'.SpelledBy body → e = e') ∧
      ∀ t ∈ body, t.kind.IsLiteral → ∃ value, Literal.SpelledBy value t := by
  refine ⟨fun e => ⟨?_, ?_⟩, ?_, ?_⟩
  · exact Expr.spelledBy_of_ofTokens hlast fun t ht => (hbody t ht).1
  · exact Expr.ofTokens_of_spelledBy hlast
  · intro e e' he he'
    have hunique := (Expr.ofTokens_of_spelledBy hlast he).symm.trans
      (Expr.ofTokens_of_spelledBy hlast he')
    exact Except.ok.inj hunique
  · exact fun t ht hk => (hbody t ht).2.literal hk

/-- A name in parentheses is called as the name itself. -/
theorem Expr.stratified_language_of_call :
    let name := TokenKind.identifier.sample
    let one : Token := ⟨.int, "1", Position.start⟩
    let body := [TokenKind.openParen.sample, name, TokenKind.closeParen.sample,
      TokenKind.openParen.sample, one, TokenKind.closeParen.sample]
    (∀ t ∈ body, t.kind ≠ .endOfInput ∧ t.Numeric) ∧
      Expr.ofTokens (body ++ [.endOfInput Position.start]) =
        .ok (.call ⟨name, none, none⟩ [.literal (.int 1) one none]
          TokenKind.openParen.sample none) := by
  intro name one body
  have hbody : ∀ t ∈ body, t.kind ≠ .endOfInput ∧ t.Numeric := by
    have hone : one.Numeric := ⟨fun _ => by decide, by simp [one]⟩
    simp [body, name, TokenKind.sample, Token.numeric_of_kind, hone]
  have hname : Expr.Of .suffixed (.ident ⟨name, none, none⟩)
      [TokenKind.openParen.sample, name, TokenKind.closeParen.sample] :=
    .tighter (by decide) (.group rfl (.sample _) rfl)
  have hone : Expr.Of .relation (.literal (.int 1) one none) [one] :=
    (ExprPhrase.SpelledBy.literal (.int rfl (by decide))).loosen (Nat.zero_le _)
  have hcall : Expr.Of .suffixed (.call ⟨name, none, none⟩ [.literal (.int 1) one none]
      TokenKind.openParen.sample none) body :=
    .call hname rfl (.argument hone) rfl
  exact ⟨hbody, ((Expr.stratified_language rfl hbody).1 _).mpr (hcall.loosen (by decide))⟩

end ScriptFront
