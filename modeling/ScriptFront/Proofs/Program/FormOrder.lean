import ScriptFront.Proofs.Program.ErrorPosition

/-!
# The order of the forms of statement

Two tokens decide which form a statement has, so at most one form matches at a place,
and the order in which the forms are tried decides nothing: the same tokens are read as
the same program, and a parse that fails is reported at the same token. Only the name
of the production in the report can differ, since it is that of the form that was the
first to read the token.
-/
namespace ScriptFront

variable {order : List StmtForm} {body : List Token} {last : Token}

/-- In front of a list of tokens, with the forms of statement in another order. -/
def ParserState.ofTokensIn (order : List StmtForm) (tokens : List Token) : ParserState :=
  { ofTokens tokens "program" with grammar := ⟨.standard, order⟩ }

/-- The program that a list of tokens spells, if at the beginning of each statement, of
those inside of statements too, the forms are tried in the given order. -/
def Program.ofTokensIn (order : List StmtForm) (tokens : List Token) :
    Except Diagnostic Program :=
  Parser.program.result (.ofTokensIn order tokens)

theorem Program.ofTokensIn_order (tokens : List Token) :
    ofTokensIn StmtForm.order tokens = ofTokens tokens := rfl

/-! ## The form that matches -/

/-- A form that matches is the one that the next two tokens predict. -/
theorem Parser.predicted_of_matched {sub : Parser Stmt} (hsub : ReadsStmts sub) {f : StmtForm}
    {s t : ParserState} {st : Stmt} (hs : s.Ready)
    (h : statementOf sub f s = (.matched st, t)) :
    ∃ x y r, s.rest = x :: y :: r ∧ StmtForm.predicted x.kind y.kind = some f := by
  have hrun := (statementOf_tries hsub f).recognizes s hs
  rw [h] at hrun
  obtain ⟨w, hw, hst⟩ := hrun.sound st rfl
  obtain ⟨x, v, rfl, hx⟩ := hst.opens
  have hend : x.kind ≠ .endOfInput := by
    intro hk
    simp [hk, TokenKind.OpensStmt] at hx
  obtain ⟨y, r, hy⟩ := hs.exists_next hw.rest_eq hend
  have hr : s.rest = x :: y :: r := hw.rest_eq.trans (congrArg (x :: ·) hy)
  refine ⟨x, y, r, hr, ?_⟩
  by_contra hne
  obtain ⟨u, hu, -⟩ := statementOf_declinesAt f hs hr hne
  rw [h] at hu
  simp at hu

/-- At most one form of statement matches at a place. -/
theorem Parser.form_unique {sub : Parser Stmt} (hsub : ReadsStmts sub) {f g : StmtForm}
    {s t u : ParserState} {st st' : Stmt} (hs : s.Ready)
    (hf : statementOf sub f s = (.matched st, t))
    (hg : statementOf sub g s = (.matched st', u)) : f = g := by
  obtain ⟨x, y, r, hr, hpredicted⟩ := predicted_of_matched hsub hs hf
  obtain ⟨x', y', r', hr', hpredicted'⟩ := predicted_of_matched hsub hs hg
  obtain ⟨rfl, hrest⟩ := List.cons.inj (hr.symm.trans hr')
  obtain ⟨rfl, -⟩ := List.cons.inj hrest
  exact Option.some.inj (hpredicted.symm.trans hpredicted')

/-! ## The furthest read -/

section
variable (hlast : last.kind = .endOfInput)
include hlast

theorem ParserState.ready_ofTokensIn (body : List Token) (horder : order.Perm StmtForm.order) :
    (ofTokensIn order (body ++ [last])).Ready :=
  { ready_ofTokens body "program" hlast with
    operators := rfl
    forms := fun f => horder.mem_iff.mpr f.mem_order }

/-- The order of the forms has no part in what two streams have in common. -/
theorem InStep.start_in {k : ℕ} {x : List Token} {mark : Token}
    (horder : order.Perm StmtForm.order) (hmark : mark.kind = .endOfInput)
    (hk : k < body.length) (hx : (body ++ [last]).take (k + 1) <+: x) :
    InStep k (.ofList (x ++ [mark])) (.ofTokensIn order (body ++ [last])) :=
  have hstart := InStep.start "program" hlast hmark hk hx
  have hready := ParserState.ready_ofTokensIn hlast body horder
  { hstart with
    ready := hready
    ready_over := { hstart.ready_over with operators := rfl, forms := hready.forms } }

/-- The tokens in front of the furthest read begin a program. -/
theorem Parser.exists_completion (body : List Token) (horder : order.Perm StmtForm.order) {k : ℕ}
    (hk : (program (.ofTokensIn order (body ++ [last]))).2.cursor.furthest = k) :
    k ≤ body.length ∧ ∃ v, ∃ p : Program,
      p.SpelledBy Expr.SpelledBy ((body ++ [last]).take k ++ v) := by
  have hs := ParserState.ready_ofTokensIn hlast body horder
  have hrun := program_recognizes _ hs
  have hrest : (ParserState.ofTokensIn order (body ++ [last])).rest = body ++ [last] :=
    ParserState.rest_ofTokens body "program" last
  constructor
  · have hinside := (hrun.follows.ready hs).furthest_inside
    rw [hrun.follows.stream, hk, ← TokenStream.length_toList] at hinside
    change k < (TokenStream.ofList (body ++ [last])).toList.length at hinside
    rw [TokenStream.toList_ofList, List.length_append, List.length_singleton] at hinside
    exact Nat.le_of_lt_succ hinside
  · rcases hrun.explored with h0 | ⟨w, v, p, hlen, hpre, hp⟩
    · obtain rfl : 0 = k := h0.symm.trans hk
      exact ⟨[], ⟨[]⟩, .nil⟩
    · obtain rfl : w.length = k := (Nat.zero_add _).symm.trans (hlen.trans hk)
      rw [hrest, List.prefix_iff_eq_take] at hpre
      exact ⟨v, p, hpre ▸ hp⟩

/-- A parse that fails in one order has read as far as a parse in another order: what the
other has read begins a program, from which this one could not tell its tokens apart. -/
theorem Parser.furthest_le_of_fails {order order' : List StmtForm}
    (horder : order.Perm StmtForm.order) (horder' : order'.Perm StmtForm.order)
    (hfail : ∀ p, (program (.ofTokensIn order (body ++ [last]))).1 ≠ .matched p) :
    (program (.ofTokensIn order' (body ++ [last]))).2.cursor.furthest ≤
      (program (.ofTokensIn order (body ++ [last]))).2.cursor.furthest := by
  obtain ⟨hle, v, p, hp⟩ := exists_completion hlast body horder' rfl
  by_contra hlt
  rw [not_le] at hlt
  have hprefix := (List.take_prefix_take_left (l := body ++ [last]) hlt).trans
    (List.prefix_append _ v)
  have hin := InStep.start_in hlast horder hlast (hlt.trans_le hle) hprefix
  apply program_fails_alike hin (Nat.zero_le _) hfail le_rfl p
  obtain ⟨t, ht, -⟩ := program_matchesAt hp hin.ready_over (TokenStream.toList_ofList _ _) hlast
  rw [ht]

end

/-! ## The outcome -/

/-- The diagnostic says of the token with the index `k` that it cannot stand there. -/
structure Diagnostic.StandsAt (tokens : List Token) (k : ℕ) (d : Diagnostic) : Prop where
  token : ∃ token, tokens[k]? = some token ∧ d.position = token.position
  fault : FaultAt tokens k d.fault

/-- Two parses of the same tokens end alike: with the same program, or with a fault at
the same token. -/
inductive Program.EndAlike (tokens : List Token) :
    Except Diagnostic Program → Except Diagnostic Program → Prop
  | program (p : Program) : EndAlike tokens (.ok p) (.ok p)
  | fault {k : ℕ} {d d' : Diagnostic} : d.StandsAt tokens k → d'.StandsAt tokens k →
      EndAlike tokens (.error d) (.error d')

theorem ParserState.Ready.standsAt {s : ParserState} (hs : s.Ready) :
    s.syntaxError.StandsAt s.tokens s.cursor.furthest :=
  ⟨⟨_, s.cursor.stream.getElem?_toList hs.furthest_inside, rfl⟩, hs.faultAt⟩

theorem Parser.standsAt_of_error (hlast : last.kind = .endOfInput)
    (horder : order.Perm StmtForm.order) {d : Diagnostic}
    (h : Program.ofTokensIn order (body ++ [last]) = .error d) :
    d.StandsAt (body ++ [last])
      (program (.ofTokensIn order (body ++ [last]))).2.cursor.furthest := by
  have hs := ParserState.ready_ofTokensIn hlast body horder
  have hfollows := (program_recognizes _ hs).follows
  have hstands := (hfollows.ready hs).standsAt
  rw [hfollows.tokens] at hstands
  obtain ⟨-, rfl⟩ := program_reports.result_eq_error h
  have htokens : (ParserState.ofTokensIn order (body ++ [last])).tokens = body ++ [last] :=
    TokenStream.toList_ofList body last
  rwa [htokens] at hstands

/-- The order in which the forms of statement are tried changes neither the program nor
the token of a fault, since at most one form matches at a place. -/
theorem Program.endAlike_of_perm (hlast : last.kind = .endOfInput)
    (hbody : ∀ t ∈ body, t.kind ≠ .endOfInput) (horder : order.Perm StmtForm.order) :
    EndAlike (body ++ [last]) (ofTokens (body ++ [last])) (ofTokensIn order (body ++ [last])) ∧
      ∀ (s : ParserState) (f g : StmtForm) (st st' : Stmt) (t u : ParserState), s.Ready →
        Parser.statementOf Parser.statement f s = (.matched st, t) →
        Parser.statementOf Parser.statement g s = (.matched st', u) → f = g := by
  refine ⟨?_, fun s f g st st' t u hs hf hg =>
    Parser.form_unique Parser.readsStmts_statement hs hf hg⟩
  have hself := List.Perm.refl StmtForm.order
  have hiff : ∀ {order : List StmtForm} {p : Program}, order.Perm StmtForm.order →
      (ofTokensIn order (body ++ [last]) = .ok p ↔ p.SpelledBy Expr.SpelledBy body) :=
    fun horder => Parser.result_eq_ok_iff.trans (Parser.program_matched_iff
      (ParserState.ready_ofTokensIn hlast body horder)
      (ParserState.rest_ofTokens body "program" last) hlast hbody)
  rw [← ofTokensIn_order]
  cases h : ofTokensIn StmtForm.order (body ++ [last]) with
  | ok p =>
      rw [(hiff horder).mpr ((hiff hself).mp h)]
      exact .program p
  | error d =>
      cases h' : ofTokensIn order (body ++ [last]) with
      | ok p =>
          rw [(hiff hself).mpr ((hiff horder).mp h')] at h
          cases h
      | error d' =>
          have hstands := Parser.standsAt_of_error hlast hself h
          have hstands' := Parser.standsAt_of_error hlast horder h'
          have hfails := (Parser.program_reports.result_eq_error h).1
          have hfails' := (Parser.program_reports.result_eq_error h').1
          have heq := le_antisymm (Parser.furthest_le_of_fails hlast hself horder hfails)
            (Parser.furthest_le_of_fails hlast horder hself hfails')
          rw [heq] at hstands'
          exact .fault hstands hstands'

/-- A brace behind the first name of a statement: in the order of the language and in the
reverse order, it is reported by different forms. -/
theorem Program.endAlike_of_reverse :
    let word (k : TokenKind) (text : String) (column : ℕ) : Token := ⟨k, text, ⟨1, column⟩⟩
    let body := [word .identifier "void" 1, word .identifier "f" 6, word .openParen "(" 7,
      word .closeParen ")" 8, word .openCurly "\x7b" 10, word .identifier "x" 12,
      word .closeCurly "\x7d" 14]
    let last := Token.endOfInput ⟨1, 15⟩
    let order := StmtForm.order.reverse
    last.kind = .endOfInput ∧ (∀ t ∈ body, t.kind ≠ .endOfInput) ∧
      order.Perm StmtForm.order ∧
      ofTokens (body ++ [last]) =
        .error ⟨.unexpectedTokenAfter "\x7d" "x" "call statement", ⟨1, 14⟩⟩ ∧
      ofTokensIn order (body ++ [last]) =
        .error ⟨.unexpectedTokenAfter "\x7d" "x" "assignment", ⟨1, 14⟩⟩ ∧
      EndAlike (body ++ [last]) (ofTokens (body ++ [last]))
        (ofTokensIn order (body ++ [last])) := by
  intro word body last order
  have hbody : ∀ t ∈ body, t.kind ≠ .endOfInput := by decide
  have horder : order.Perm StmtForm.order := List.reverse_perm _
  refine ⟨rfl, hbody, horder, ?_, ?_, (endAlike_of_perm rfl hbody horder).1⟩
  · cbv
  · cbv

end ScriptFront
