import ScriptFront.Proofs.Expr.Language
import ScriptFront.Proofs.Stmt.Matching
import ScriptFront.Proofs.Stmt.Recognition

/-!
# Calls as statements and as expressions

The arguments of a call statement are read one by one for as long as that succeeds, and
those of a call in an expression are read with a look at the token behind each of them.
Both ways lead to the same language: in front of the same parenthesis both read the same
arguments, or neither does.
-/
namespace ScriptFront

variable {name opening closing semicolon last : Token} {body : List Token} {args : List Expr}

/-- From the first token on the form reads the statement, and then stands in front of the
end mark. -/
def StmtForm.ReadsAll (f : StmtForm) (tokens : List Token) (st : Stmt) : Prop :=
  ∃ t, Parser.statementOf Parser.statement f (.ofTokens tokens "program") = (.matched st, t) ∧
    t.cursor.atEnd

section
variable (hname : name.kind = .identifier) (hopening : opening.kind = .openParen)
  (hclosing : closing.kind = .closeParen) (hlast : last.kind = .endOfInput)
  (hbody : ∀ t ∈ body, t.kind ≠ .endOfInput)
include hname hopening hclosing hlast hbody

/-- As an expression, a call has the tokens between the parentheses as its arguments. -/
theorem Expr.ofTokens_call_iff {callee : Ident} {token : Token} :
    Expr.ofTokens (name :: opening :: (body ++ [closing, last])) =
        .ok (.call callee args token none) ↔
      callee = ⟨name, none, none⟩ ∧ token = opening ∧ Listed Expr.SpelledBy args body := by
  have htokens : name :: opening :: (body ++ [closing, last]) =
      name :: opening :: (body ++ [closing]) ++ [last] := by simp
  rw [htokens]
  constructor
  · intro h
    have hall : ∀ t ∈ name :: opening :: (body ++ [closing]), t.kind ≠ .endOfInput := by
      simpa [or_imp, forall_and, hname, hopening, hclosing] using hbody
    obtain ⟨rfl, w, c, hargs, hw⟩ := (Expr.spelledBy_of_ofTokens hlast hall h).call_of_name hname
    obtain ⟨rfl, hinner⟩ := List.cons.inj hw
    obtain ⟨rfl, -⟩ := List.append_inj' hinner rfl
    exact ⟨rfl, rfl, hargs⟩
  · rintro ⟨rfl, rfl, hargs⟩
    exact Expr.ofTokens_of_spelledBy hlast (Expr.spelledBy_call hname hopening hargs hclosing)

/-- As a statement, a call has the tokens between the parentheses as its arguments. -/
theorem StmtForm.readsAll_call_iff (hsemicolon : semicolon.kind = .semicolon) {st : Stmt} :
    call.ReadsAll (name :: opening :: (body ++ [closing, semicolon, last])) st ↔
      ∃ args, st = .call ⟨name, none, none⟩ args opening ∧
        Listed Expr.SpelledBy args body := by
  have htokens : name :: opening :: (body ++ [closing, semicolon, last]) =
      name :: opening :: (body ++ [closing, semicolon]) ++ [last] := by simp
  have hs := ParserState.ready_ofTokens (name :: opening :: (body ++ [closing, semicolon]))
    "program" hlast
  have hr := ParserState.rest_ofTokens (name :: opening :: (body ++ [closing, semicolon]))
    "program" last
  rw [ReadsAll, htokens]
  constructor
  · rintro ⟨t, ht, hend⟩
    have hrun : Recognition (Stmt.SpelledBy Expr.SpelledBy) _
        (Parser.statementOf Parser.statement .call _) := Parser.call_tries.recognizes _ hs
    rw [ht] at hrun
    obtain ⟨w, hw, hst⟩ := hrun.sound st rfl
    have hall : ∀ t ∈ name :: opening :: (body ++ [closing, semicolon]),
        t.kind ≠ .endOfInput := by
      simpa [or_imp, forall_and, hname, hopening, hclosing, hsemicolon] using hbody
    have hrest := hw.rest_eq
    rw [hr] at hrest
    obtain rfl := (hw.ready hs).eq_body (by simpa [TokenCursor.atEnd] using hend) hall hrest.symm
    obtain ⟨args, w, c, semi, rfl, hargs, hw⟩ := hst.call_of_opening hname hopening
    obtain ⟨rfl, -⟩ := List.append_inj' hw rfl
    exact ⟨args, rfl, hargs⟩
  · rintro ⟨args, rfl, hargs⟩
    obtain ⟨t, ht, hw⟩ : (Parser.statementOf Parser.statement .call).MatchesAt _ _ _ :=
      Parser.call_matchesAt hname hopening hargs hclosing hsemicolon hs (by simpa using hr)
    refine ⟨t, ht, ?_⟩
    rw [TokenCursor.atEnd, (hw.ready hs).current_eq (hw.rest_of_append hr), hlast]
    rfl

/-- A call statement is read up to the end of the input exactly if, without the semicolon,
the tokens are an expression that calls with the arguments behind the first parenthesis.
Both then have the same callee, arguments and parenthesis. -/
theorem StmtForm.call_reads_as_expression (hsemicolon : semicolon.kind = .semicolon) :
    let statement := name :: opening :: (body ++ [closing, semicolon, last])
    let expression := name :: opening :: (body ++ [closing, last])
    ((∃ st, call.ReadsAll statement st) ↔
        ∃ callee args, Expr.ofTokens expression = .ok (.call callee args opening none)) ∧
      ∀ st e, call.ReadsAll statement st → Expr.ofTokens expression = .ok e →
        ∃ callee args, st = .call callee args opening ∧ e = .call callee args opening none := by
  intro statement expression
  have hstatement {st : Stmt} : call.ReadsAll statement st ↔ _ :=
    readsAll_call_iff hname hopening hclosing hlast hbody hsemicolon
  have hexpression {callee : Ident} {args : List Expr} :
      Expr.ofTokens expression = .ok (.call callee args opening none) ↔ _ :=
    Expr.ofTokens_call_iff hname hopening hclosing hlast hbody
  refine ⟨⟨?_, ?_⟩, ?_⟩
  · rintro ⟨st, hst⟩
    obtain ⟨args, -, hargs⟩ := hstatement.mp hst
    exact ⟨_, args, hexpression.mpr ⟨rfl, rfl, hargs⟩⟩
  · rintro ⟨callee, args, he⟩
    obtain ⟨-, -, hargs⟩ := hexpression.mp he
    exact ⟨_, hstatement.mpr ⟨args, rfl, hargs⟩⟩
  · intro st e hst he
    obtain ⟨args, rfl, hargs⟩ := hstatement.mp hst
    have hcall := hexpression.mpr ⟨rfl, rfl, hargs⟩
    exact ⟨_, args, rfl, Except.ok.inj (he.symm.trans hcall)⟩

end

/-- A call among the arguments of a call. -/
theorem StmtForm.call_reads_as_expression_nested :
    let word (k : TokenKind) (text : String) (column : ℕ) : Token := ⟨k, text, ⟨1, column⟩⟩
    let f := word .identifier "f" 1
    let opening := word .openParen "(" 2
    let body := [word .identifier "g" 3, word .openParen "(" 4, word .bool "true" 5,
      word .closeParen ")" 9, word .comma "," 10, word .identifier "x" 12]
    let closing := word .closeParen ")" 13
    let semicolon := word .semicolon ";" 14
    let last := Token.endOfInput ⟨1, 15⟩
    f.kind = .identifier ∧ opening.kind = .openParen ∧ closing.kind = .closeParen ∧
      last.kind = .endOfInput ∧ (∀ t ∈ body, t.kind ≠ .endOfInput) ∧
      semicolon.kind = .semicolon ∧
      ∃ st, call.ReadsAll (f :: opening :: (body ++ [closing, semicolon, last])) st := by
  intro word f opening body closing semicolon last
  have hbody : ∀ t ∈ body, t.kind ≠ .endOfInput := by decide
  refine ⟨rfl, rfl, rfl, rfl, hbody, rfl, ?_⟩
  have hreads := @call_reads_as_expression f opening closing semicolon last body
    rfl rfl rfl rfl hbody rfl
  exact hreads.1.mpr ⟨_, _, by cbv⟩

end ScriptFront
