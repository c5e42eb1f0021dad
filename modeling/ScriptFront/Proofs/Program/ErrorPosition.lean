import ScriptFront.Proofs.Parsing.Reporting
import ScriptFront.Proofs.Program.Closure
import ScriptFront.Proofs.Program.Language
import ScriptFront.Proofs.Stmt.Lockstep

/-!
# Where a syntax error stands

A parse that fails is reported at a token behind which no program can go on,
while the tokens in front of it begin one. The first half holds because the
parser reads no token without need: what is in front of the furthest read can be
completed. The second half holds because a stream that differs only behind the
furthest read cannot be told apart, so the parse fails there too.
-/
namespace ScriptFront

variable {body : List Token} {last : Token}

/-- The tokens begin a list, closed by an end mark, that parses. -/
def Program.Viable (w : List Token) : Prop :=
  ∃ v last, ∃ p : Program, last.kind = .endOfInput ∧
    Program.ofTokens (w ++ v ++ [last]) = .ok p

namespace Parser

theorem program_reports : program.Reports :=
  Reports.closed.program (.tentative _)

/-! ## The token that stops a repetition was read -/

/-- Where a repetition ends, its parser has read the next token in vain. -/
theorem many_stops {α : Type} {p : Parser α} (hp : ∀ b, p.Attentive b) (hc : p.Consumes)
    (hback : ∀ {s t : ParserState}, s.Ready → p s = (.noMatch, t) →
      t.cursor.index = s.cursor.index) {s : ParserState} (hs : s.Ready) :
    p.many.Ensures s fun _ t => t.cursor.index ≤ t.cursor.furthest := by
  suffices ∀ n s, ParserState.Ready s → s.cursor.remaining < n →
      (p.manyUpTo n).Ensures s fun _ t => t.cursor.index ≤ t.cursor.furthest from
    this _ s hs (Nat.lt_succ_self _)
  intro n
  induction n with
  | zero => exact fun _ _ hn => absurd hn (Nat.not_lt_zero _)
  | succ n ih =>
      intro s hs hn
      refine .bind fun a? t ht => ?_
      rw [optional] at ht
      have hattends := (hp _).attends hs (Nat.lt_succ_self _)
      have hfollows := (hp _).proceeds s hs (Nat.lt_succ_self _)
      cases hr : p s with
      | mk o u =>
          rw [hr] at ht hattends hfollows
          cases o <;> cases ht
          · refine .bind fun as v hv => .pure ?_
            have hlt : t.cursor.remaining < s.cursor.remaining := hc s _ t hs hr
            exact ih t (hfollows.ready hs) (by omega) as v hv
          · refine .pure ?_
            rw [hback hs hr]
            exact hattends.read (by simp)

end Parser

/-! ## Definitions in lockstep -/

section
variable {b b' : ℕ}

theorem Steady.param : Steady b b' Parser.param Parser.param :=
  .attempt (Steady.typeName.bind fun _ => .accept_then (by decide) fun _ => .pure _)

theorem Steady.paramList : Steady b b' Parser.paramList Parser.paramList :=
  Parser.paramList_eq ▸ .listed .param Parser.param_tries.recognizes Parser.param_inhabited

theorem Steady.fnDef : Steady b b' Parser.fnDef Parser.fnDef := by
  refine .attempt (Steady.typeName.bind fun _ => ?_)
  refine .accept_then (by decide) fun _ => .accept_then (by decide) fun _ => ?_
  refine Steady.paramList.bind fun _ => .accept_then (by decide) fun _ => ?_
  exact Steady.block.bind fun _ => .pure _

theorem Steady.globalVar : Steady b b' Parser.globalVar Parser.globalVar := by
  refine .attempt (Steady.typeName.bind fun _ => ?_)
  exact .accept_then (by decide) fun _ => .accept_then (by decide) fun _ => .pure _

theorem Steady.global : Steady b b' Parser.global Parser.global := by
  have hfn : (Global.function <$> Parser.fnDef).Tries (Global.SpelledBy Expr.SpelledBy) :=
    .bind_pure Parser.fnDef_tries fun _ _ => .function
  exact .orElse (Steady.fnDef.bind fun _ => .pure _) (Steady.globalVar.bind fun _ => .pure _)
    fun _ _ => hfn.restores

theorem Parser.global_consumes : global.Consumes :=
  global_tries.recognizes.consumes fun _ _ => (·.ne_nil)

theorem Steady.globals : Steady b b' (Parser.many Parser.global) (Parser.many Parser.global) :=
  Steady.global.many Parser.global_consumes Parser.global_consumes

end

/-! ## Two streams with a common beginning -/

theorem InStep.start {k : ℕ} {x : List Token} {mark : Token} (production : String)
    (hlast : last.kind = .endOfInput) (hmark : mark.kind = .endOfInput)
    (hk : k < body.length) (hx : (body ++ [last]).take (k + 1) <+: x) :
    InStep k (.ofList (x ++ [mark])) (.ofTokens (body ++ [last]) production) := by
  have hsize : ∀ (ts : List Token) (t : Token),
      (TokenStream.ofList (ts ++ [t])).size = ts.length + 1 := by
    intro ts t
    rw [← TokenStream.length_toList, TokenStream.toList_ofList, List.length_append,
      List.length_singleton]
  have hlen : k + 1 ≤ x.length := by
    have := hx.length_le
    simp only [List.length_take, List.length_append, List.length_singleton] at this
    omega
  refine ⟨ParserState.ready_ofTokens body production hlast,
    ParserState.ready_ofTokens x production hmark, ?_, ?_, ?_, Nat.zero_le _, Nat.zero_le _⟩
  · intro i hi
    have hget : ∀ (ts : List Token) (t : Token), i < ts.length →
        some ((TokenStream.ofList (ts ++ [t])).get i) = ts[i]? := by
      intro ts t hlt
      rw [← TokenStream.getElem?_toList _ (by rw [hsize]; omega), TokenStream.toList_ofList,
        List.getElem?_append_left hlt]
    obtain ⟨v, rfl⟩ := hx
    have hsame : (body ++ [last]).take (k + 1) = body.take (k + 1) :=
      List.take_append_of_le_length hk
    rw [hsame] at hlen ⊢
    apply Option.some.inj
    change some (TokenStream.get _ i) = some (TokenStream.get (.ofList (body ++ [last])) i)
    rw [hget _ _ (by omega), hget _ _ (by omega), List.getElem?_append_left (by simp; omega),
      List.getElem?_take_of_lt (by omega)]
  · change k + 1 < (TokenStream.ofList (body ++ [last])).size
    rw [hsize]
    omega
  · rw [hsize]
    omega

namespace Parser

theorem program_apply (s : ParserState) : program s =
    match many global s with
    | (.matched globals, t) =>
        if t.cursor.current.kind = .endOfInput then (.matched ⟨globals⟩, t)
        else (.failed t.syntaxError, t)
    | (.noMatch, t) => (.noMatch, t)
    | (.failed d, t) => (.failed d, t) := by
  rw [program, bind_apply]
  rcases many global s with ⟨o, t⟩
  cases o with
  | noMatch => rfl
  | failed d => rfl
  | matched globals =>
      change (if t.cursor.current.kind = .endOfInput then _ else stop : Parser Program) t = _
      dsimp only
      split_ifs <;> rfl

/-- Nothing is read behind the definitions. -/
theorem snd_program (s : ParserState) : (program s).2 = (many global s).2 := by
  rw [program_apply]
  rcases many global s with ⟨_ | _ | _, t⟩ <;> dsimp only
  split_ifs <;> rfl

/-- A parse that has failed without reading behind `k` fails on every stream with
the same tokens up to `k`. -/
theorem program_fails_alike {k : ℕ} {x : TokenStream} {s : ParserState}
    (hs : InStep k x s) (hi : s.cursor.index ≤ k)
    (hfail : ∀ p, (program s).1 ≠ .matched p)
    (hk : (program s).2.cursor.furthest ≤ k) (p : Program) :
    (program (s.over x)).1 ≠ .matched p := by
  have hsteady : Steady (s.cursor.remaining + 1) ((s.over x).cursor.remaining + 1)
      (many global) (many global) := .globals
  have hagree := hsteady.agree hs hi (Nat.lt_succ_self _) (Nat.lt_succ_self _)
  have hattentive : ∀ b, global.Attentive b := fun b =>
    Steady.attentive (Steady.global : Steady b b _ _)
  have hstops := many_stops hattentive global_consumes global_tries.restores hs.ready
  rw [snd_program] at hk
  rw [program_apply] at hfail ⊢
  rcases hr : many global s with ⟨o, t⟩
  rw [hr] at hagree hfail hk
  rcases hagree with ⟨h, -⟩ | ⟨heq, hin⟩
  · rcases h with hlt | ⟨globals, hmatch, hindex⟩
    · exact absurd hk (not_le.mpr hlt)
    · have hread := hstops globals t (hmatch ▸ hr)
      change t.cursor.index = k + 1 at hindex
      exact absurd (hread.trans hk) (by omega)
  · rw [heq]
    cases o with
    | noMatch => simp
    | failed d => simp
    | matched globals =>
        have hcurrent := (hin.advanced ((hstops globals t hr).trans hk)).1
        have hend : t.cursor.current.kind ≠ .endOfInput := by
          intro hend
          exact hfail ⟨globals⟩ (by simp only [hend, if_true])
        simp only [hcurrent, if_neg hend]
        simp

end Parser

/-! ## The position -/

/-- What is said about the token with the index `k` where it cannot stand: the end
of the input is named as such, any other token with the one in front of it, if
there is one. -/
inductive FaultAt (tokens : List Token) : ℕ → Fault → Prop where
  | ending {k : ℕ} {token : Token} {production : String} :
      tokens[k]? = some token → token.kind = .endOfInput →
      FaultAt tokens k (.unexpectedEndOfFile production)
  | first {token : Token} {production : String} :
      tokens[0]? = some token → token.kind ≠ .endOfInput →
      FaultAt tokens 0 (.unexpectedToken token.display production)
  | behind {k : ℕ} {previous token : Token} {production : String} :
      tokens[k]? = some previous → tokens[k + 1]? = some token → token.kind ≠ .endOfInput →
      FaultAt tokens (k + 1)
        (.unexpectedTokenAfter token.display previous.display production)

theorem ParserState.Ready.faultAt {s : ParserState} (hs : s.Ready) :
    FaultAt s.tokens s.cursor.furthest s.syntaxError.fault := by
  have hin := hs.furthest_inside
  have hread := s.cursor.stream.getElem?_toList hin
  simp only [syntaxError, TokenCursor.furthestRead]
  by_cases hk : (s.cursor.stream.get s.cursor.furthest).kind = .endOfInput
  · simp only [hk, if_true]
    exact .ending hread hk
  · simp only [hk, if_false]
    cases hfar : s.cursor.furthest with
    | zero =>
        rw [hfar] at hread hk
        exact .first hread hk
    | succ k =>
        rw [hfar] at hread hk hin
        exact .behind (s.cursor.stream.getElem?_toList (Nat.lt_of_succ_lt hin)) hread hk

/-- A syntax error stands at the first token that no program can have there. -/
theorem Program.error_position (hlast : last.kind = .endOfInput) {d : Diagnostic}
    (h : Program.ofTokens (body ++ [last]) = .error d) :
    ∃ k token, (body ++ [last])[k]? = some token ∧ d.position = token.position ∧
      Program.Viable ((body ++ [last]).take k) ∧
      (token.kind ≠ .endOfInput → ¬ Program.Viable ((body ++ [last]).take (k + 1))) ∧
      FaultAt (body ++ [last]) k d.fault := by
  have hs := ParserState.ready_ofTokens body "program" hlast
  obtain ⟨hfail, rfl⟩ := Parser.program_reports.result_eq_error h
  have hrun := Parser.program_recognizes _ hs
  have halike : ∀ {x}, InStep _ x (.ofTokens (body ++ [last]) "program") → ∀ p, _ :=
    fun hin => Parser.program_fails_alike hin (Nat.zero_le _) hfail le_rfl
  rcases hr : Parser.program (.ofTokens (body ++ [last]) "program") with ⟨o, t⟩
  rw [hr] at hrun halike
  have hready := hrun.follows.ready hs
  have htokens : t.tokens = body ++ [last] :=
    hrun.follows.tokens.trans (TokenStream.toList_ofList body last)
  have hread := t.cursor.stream.getElem?_toList hready.furthest_inside
  have hfault := hready.faultAt
  change t.tokens[_]? = _ at hread
  rw [htokens] at hread hfault
  refine ⟨t.cursor.furthest, t.cursor.stream.get t.cursor.furthest, hread, rfl, ?_, ?_, hfault⟩
  · have hempty : Program.Viable [] := by
      refine ⟨[], last, ⟨[]⟩, hlast, Program.ofTokens_of_spelledBy hlast ?_⟩
      exact .nil
    rcases hrun.explored with h0 | ⟨w, v, p, hw, hpre, hp⟩
    · change t.cursor.furthest = 0 at h0
      rwa [h0]
    · change w <+: (ParserState.ofTokens (body ++ [last]) "program").rest at hpre
      rw [ParserState.rest_ofTokens, List.prefix_iff_eq_take] at hpre
      change 0 + w.length = t.cursor.furthest at hw
      rw [← hw, Nat.zero_add, ← hpre]
      exact ⟨v, last, p, hlast, Program.ofTokens_of_spelledBy hlast hp⟩
  · rintro hk ⟨v, mark, p, hmark, hp⟩
    have hlt : t.cursor.furthest < body.length := by
      have hin := (List.getElem?_eq_some_iff.mp hread).1
      rw [List.length_append, List.length_singleton] at hin
      refine (Nat.lt_succ_iff_lt_or_eq.mp hin).resolve_right fun heq => ?_
      rw [heq, List.getElem?_concat_length] at hread
      rw [heq, ← Option.some.inj hread] at hk
      exact hk hlast
    have hin := InStep.start "program" hlast hmark hlt (List.prefix_append _ v)
    exact halike hin p (Parser.result_eq_ok hp)

/-- A closing parenthesis behind `int x` is where the error stands: some programs begin
with `int x`, and none goes on with the parenthesis. -/
theorem Program.error_position_of_parenthesis :
    let type : Token := ⟨.identifier, "int", ⟨1, 1⟩⟩
    let name : Token := ⟨.identifier, "x", ⟨1, 5⟩⟩
    let closing : Token := ⟨.closeParen, ")", ⟨1, 6⟩⟩
    Program.ofTokens [type, name, closing, .endOfInput ⟨1, 7⟩] =
        .error ⟨.unexpectedTokenAfter ")" "x" "function definition", ⟨1, 6⟩⟩ ∧
      Program.Viable [type, name] ∧ ¬ Program.Viable [type, name, closing] := by
  intro type name closing
  have herror : Program.ofTokens ([type, name, closing] ++ [.endOfInput ⟨1, 7⟩]) =
      .error ⟨.unexpectedTokenAfter ")" "x" "function definition", ⟨1, 6⟩⟩ := by
    cbv
  obtain ⟨k, token, hk, hposition, hviable, hstuck, -⟩ := Program.error_position rfl herror
  have htwo : k = 2 := by
    clear herror hviable hstuck
    -- no two tokens have the same position
    rcases k with _ | _ | _ | _ | k
    · obtain rfl : type = token := by simpa using hk
      exact absurd hposition (by decide)
    · obtain rfl : name = token := by simpa using hk
      exact absurd hposition (by decide)
    · rfl
    · obtain rfl : Token.endOfInput ⟨1, 7⟩ = token := by simpa using hk
      exact absurd hposition (by decide)
    · simp at hk
  subst htwo
  have htoken : token = closing := (Option.some.inj hk).symm
  refine ⟨herror, hviable, hstuck ?_⟩
  rw [htoken]
  decide

end ScriptFront
