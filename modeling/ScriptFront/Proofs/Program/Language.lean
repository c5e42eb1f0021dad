import ScriptFront.Proofs.Expr.Language
import ScriptFront.Proofs.Parsing.Reporting
import ScriptFront.Proofs.Program.Matching
import ScriptFront.Proofs.Program.Recognition

/-!
# The language of programs

The program parser accepts a list of tokens exactly if the tokens in front of the
end mark spell a program, where an expression is whatever the expression parser
accepts. No tokens spell two programs.
-/
namespace ScriptFront

variable {body : List Token} {last : Token}

/-- In front of tokens with an end mark behind them, the parser matches what they spell.
The order in which it tries the forms of statement is left open. -/
theorem Parser.program_matched_iff {s : ParserState} (hs : s.Ready)
    (hr : s.rest = body ++ [last]) (hlast : last.kind = .endOfInput)
    (hbody : ∀ t ∈ body, t.kind ≠ .endOfInput) {p : Program} :
    (program s).1 = .matched p ↔ p.SpelledBy Expr.SpelledBy body := by
  constructor
  · intro h
    obtain ⟨w, hw, hp⟩ := (program_recognizes s hs).sound p h
    have hk := program_ends s p _ (Prod.ext h rfl)
    rwa [(hw.ready hs).eq_body hk hbody (hw.rest_eq.symm.trans hr)] at hp
  · intro h
    obtain ⟨t, ht, -⟩ := program_matchesAt h hs hr hlast
    rw [ht]

theorem Program.spelledBy_of_ofTokens (hlast : last.kind = .endOfInput)
    (hbody : ∀ t ∈ body, t.kind ≠ .endOfInput) {p : Program}
    (h : Program.ofTokens (body ++ [last]) = .ok p) : p.SpelledBy Expr.SpelledBy body := by
  have hs := ParserState.ready_ofTokens body "program" hlast
  have hr := ParserState.rest_ofTokens body "program" last
  exact (Parser.program_matched_iff hs hr hlast hbody).mp (Parser.result_eq_ok h)

theorem Program.ofTokens_of_spelledBy (hlast : last.kind = .endOfInput) {p : Program}
    (h : p.SpelledBy Expr.SpelledBy body) : Program.ofTokens (body ++ [last]) = .ok p := by
  have hs := ParserState.ready_ofTokens body "program" hlast
  have hr := ParserState.rest_ofTokens body "program" last
  obtain ⟨t, ht, -⟩ := Parser.program_matchesAt h hs hr hlast
  rw [ofTokens, Parser.result, ht]

/-- The program parser accepts exactly the tokens of a program in front of the end
mark, and the tree is the only one that the tokens spell. -/
theorem Program.language (hlast : last.kind = .endOfInput)
    (hbody : ∀ t ∈ body, t.kind ≠ .endOfInput) :
    (∀ p, Program.ofTokens (body ++ [last]) = .ok p ↔ p.SpelledBy Expr.Accepted body) ∧
      ∀ p p' : Program, p.SpelledBy Expr.Accepted body →
        p'.SpelledBy Expr.Accepted body → p = p' := by
  rw [Expr.accepted_eq]
  refine ⟨fun p => ⟨?_, ?_⟩, ?_⟩
  · exact Program.spelledBy_of_ofTokens hlast hbody
  · exact Program.ofTokens_of_spelledBy hlast
  · intro p p' hp hp'
    have hunique := (Program.ofTokens_of_spelledBy hlast hp).symm.trans
      (Program.ofTokens_of_spelledBy hlast hp')
    exact Except.ok.inj hunique

/-- An `else` belongs to the nearer of two `if`s. -/
theorem Program.language_nearest_if :
    let name := TokenKind.identifier.sample
    let opening := TokenKind.openParen.sample
    let closing := TokenKind.closeParen.sample
    let semicolon := TokenKind.semicolon.sample
    let word := TokenKind.ifWord.sample
    let condition : Expr := .ident ⟨name, none, none⟩
    let body := [name, name, opening, closing, TokenKind.openCurly.sample,
      word, opening, name, closing, word, opening, name, closing, semicolon,
      TokenKind.elseWord.sample, semicolon, TokenKind.closeCurly.sample]
    (∀ t ∈ body, t.kind ≠ .endOfInput) ∧
      Program.ofTokens (body ++ [.endOfInput Position.start]) =
        .ok ⟨[.function ⟨⟨name, false, none⟩, name, [], opening,
          [.ifThen condition (.ifThenElse condition (.empty semicolon) (.empty semicolon) word)
            word], TokenKind.openCurly.sample, none⟩]⟩ := by
  intro name opening closing semicolon word condition body
  have hbody : ∀ t ∈ body, t.kind ≠ .endOfInput := by
    simp [body, name, opening, closing, semicolon, word, TokenKind.sample]
  have hcondition : condition.Accepted [name] := by
    rw [Expr.accepted_eq]
    exact .sample .relation
  have hempty : Stmt.SpelledBy Expr.Accepted (.empty semicolon) [semicolon] := .empty rfl
  have hinner : Stmt.SpelledBy Expr.Accepted
      (.ifThenElse condition (.empty semicolon) (.empty semicolon) word)
      [word, opening, name, closing, semicolon, TokenKind.elseWord.sample, semicolon] :=
    .ifThenElse rfl rfl hcondition rfl hempty rfl rfl hempty
  have houter : Stmt.SpelledBy Expr.Accepted (.ifThen condition _ word)
      (word :: opening :: ([name] ++ closing :: _)) := .ifThen rfl rfl hcondition rfl hinner
  have hblock : Braced Expr.Accepted ([_], TokenKind.openCurly.sample) _ :=
    .intro rfl (.single houter) (TokenKind.kind_sample .closeCurly)
  have hfunction := FnDef.SpelledBy.intro (.plain (TokenKind.kind_sample .identifier))
    (TokenKind.kind_sample .identifier) (TokenKind.kind_sample .openParen) .nil
    (TokenKind.kind_sample .closeParen) hblock
  have hprogram := Repeated.single (Global.SpelledBy.function hfunction)
  exact ⟨hbody, ((Program.language rfl hbody).1 _).mpr hprogram⟩

end ScriptFront
