import ScriptFront.Proofs.Parsing.History
import ScriptFront.Proofs.Program.Termination

/-!
# Backtracking

A parser reads a token even where it is not of the kind that is asked for, and an
alternative can end in the middle of another one. What an attempt has marked it takes back
once, whatever the outcome: so a parser leaves the marks and the production as it has found
them, and if it does not match, the next alternative begins at the same place.

This is stated of every state that parsing can lead to, inside of any alternatives. The
marks of such a state all lie in the stream, so that going back to one never leaves it.
-/
namespace ScriptFront

variable {α : Type}

/-! ## The states of a parse -/

/-- The states that the steps of a parse lead to: reading a token, beginning an alternative
of a production, and ending one in either way. -/
inductive ParserState.Reachable (tokens : List Token) : ParserState → Prop
  | start (production : String) : Reachable tokens (.ofTokens tokens production)
  | advanced {s : ParserState} : Reachable tokens s → Reachable tokens s.advanced
  | enter {s : ParserState} (production : String) :
      Reachable tokens s → Reachable tokens (s.enter production)
  | keep {s : ParserState} (outer : String) :
      Reachable tokens s → Reachable tokens (s.keep outer)
  | retreat {s : ParserState} (outer : String) :
      Reachable tokens s → Reachable tokens (s.retreat outer)

namespace ParserState.Reachable

variable {body : List Token} {last : Token} {s t : ParserState}

/-- Wherever a parse gets, it stands inside the stream, and so do the marks. -/
theorem ready_and_marksInside (h : last.kind = .endOfInput) (hs : Reachable (body ++ [last]) s) :
    s.Ready ∧ s.cursor.MarksInside := by
  induction hs with
  | start production => exact ⟨ready_ofTokens _ _ h, nofun⟩
  | @advanced s _ ih =>
      have hfollows := s.follows_advanced
      refine ⟨hfollows.ready ih.1, fun i hi => ?_⟩
      rw [hfollows.stream]
      exact ih.2 i (hfollows.marks ▸ hi)
  | enter production _ ih =>
      refine ⟨ih.1.enter production, fun i hi => ?_⟩
      rcases List.mem_cons.mp hi with rfl | hi
      · exact ih.1.inside
      · exact ih.2 i hi
  | keep outer _ ih => exact ⟨ih.1.keep outer, fun i hi => ih.2 i (List.mem_of_mem_tail hi)⟩
  | @retreat s outer _ ih =>
      obtain ⟨hstream, hfurthest, hindex, hmarks⟩ := TokenCursor.reset_inside ih.1.inside ih.2
      refine ⟨⟨?_, ?_, ?_, ih.1.operators, ih.1.forms⟩, hmarks⟩
      · change s.cursor.reset.index < s.cursor.reset.stream.size
        rwa [hstream]
      · change s.cursor.reset.furthest < s.cursor.reset.stream.size
        rw [hstream, hfurthest]
        exact ih.1.furthest_inside
      · change s.cursor.reset.stream.last.kind = _
        rw [hstream]
        exact ih.1.ends

theorem ready (h : last.kind = .endOfInput) (hs : Reachable (body ++ [last]) s) : s.Ready :=
  (hs.ready_and_marksInside h).1

/-- A run that ends leads to a reachable state, as all of its steps do. -/
theorem of_takes {Call : Type} {Answer : Call → Type} {code : ∀ c, Procedure Answer (Answer c)}
    {p : Procedure Answer α} {n : ℕ} {o : Outcome α} {tokens : List Token}
    (h : Procedure.Takes code p s n o t) (hs : Reachable tokens s) : Reachable tokens t := by
  induction h with
  | look => exact hs
  | advance => exact hs.advanced
  | call _ ih => exact ih hs
  | handle _ _ ihp ihnext => exact ihnext (ihp hs)
  | keep _ _ ih => exact (ih (hs.enter _)).keep _
  | retreat _ ih => exact (ih (hs.enter _)).retreat _

section
variable (h : last.kind = .endOfInput)
include h

theorem run (p : Steps α) (hs : Reachable (body ++ [last]) s) :
    Reachable (body ++ [last]) (p.run ParserCall.parser s).2 := by
  have hready := hs.ready h
  have hcalls : p.CallsOnly ParserCall.parser s fun c t => ∃ n,
      Procedure.Takes ParserCall.body (.call c) t n (c.parser t).1 (c.parser t).2 := fun e he =>
    e.1.ends e.2
      ((Procedure.precedes_of_mem_calls ParserCall.parser_onward hready he).ready hready)
  obtain ⟨n, htakes⟩ := Procedure.takes_of_calls hcalls
  exact of_takes htakes hs

theorem of_mem_calls {p : Steps α} (hs : Reachable (body ++ [last]) s)
    {e : ParserCall × ParserState} (he : e ∈ p.calls ParserCall.parser s) :
    Reachable (body ++ [last]) e.2 := by
  induction p generalizing s with
  | look | advance => cases he
  | call c =>
      obtain rfl := List.mem_singleton.mp he
      exact hs
  | handle p next ihp ihnext =>
      rcases List.mem_append.mp he with he | he
      · exact ihp hs he
      · exact ihnext _ (hs.run h p) he
  | attempt production p ih => exact ih (hs.enter production) he

theorem of_mem_visits {p : Steps α} (hs : Reachable (body ++ [last]) s)
    (ht : t ∈ p.visits ParserCall.parser s) : Reachable (body ++ [last]) t := by
  induction p generalizing s with
  | look => exact List.mem_singleton.mp ht ▸ hs
  | advance =>
      rcases List.mem_cons.mp ht with rfl | ht
      · exact hs
      · exact List.mem_singleton.mp ht ▸ hs.advanced
  | call c =>
      rcases List.mem_cons.mp ht with rfl | ht
      · exact hs
      · exact List.mem_singleton.mp ht ▸ hs.run h (.call c)
  | handle p next ihp ihnext =>
      rcases List.mem_append.mp ht with ht | ht
      · exact ihp hs ht
      · exact ihnext _ (hs.run h p) ht
  | attempt production p ih =>
      rcases List.mem_append.mp ht with ht | ht
      · rcases List.mem_cons.mp ht with rfl | ht
        · exact hs
        · exact ih (hs.enter production) ht
      · exact List.mem_singleton.mp ht ▸ hs.run h (.attempt production p)

end

end ParserState.Reachable

theorem ParserEntry.Reaches.reachable {start e : ParserEntry} {body : List Token} {last : Token}
    (h : last.kind = .endOfInput) (hstart : start.state.Reachable (body ++ [last]))
    (he : start.Reaches e) {t : ParserState} (ht : t ∈ e.visits) :
    t.Reachable (body ++ [last]) := by
  have hentry : e.state.Reachable (body ++ [last]) := by
    clear ht
    induction he with
    | refl => exact hstart
    | tail _ henters ih => exact ih.of_mem_calls h henters
  exact hentry.of_mem_visits h ht

/-! ## Leaving marks and production as they are -/

/-- Whatever the outcome, the parser ends with the marks and the production that it has found
in the state `s`, and neither its place nor the furthest read has gone back. If it does not
match, it stands where it has begun. -/
structure Parser.Backtracks (p : Parser α) (s : ParserState) : Prop where
  marks : (p s).2.cursor.marks = s.cursor.marks
  production : (p s).2.production = s.production
  index : s.cursor.index ≤ (p s).2.cursor.index
  furthest : s.cursor.furthest ≤ (p s).2.cursor.furthest
  restores : (p s).1 = .noMatch → (p s).2.cursor.index = s.cursor.index

namespace Parser

variable {p : Parser α} {s : ParserState}

theorem Onward.backtracks (h : p.Onward) (hs : s.Ready)
    (hrestores : ∀ t, p s = (.noMatch, t) → t.cursor.index = s.cursor.index) :
    p.Backtracks s where
  marks := (h s hs).marks
  production := (h s hs).production
  index := (h s hs).index
  furthest := (h s hs).furthest
  restores hn := hrestores _ (Prod.ext hn rfl)

theorem Tries.backtracks {D : α → List Token → Prop} (h : p.Tries D) (hs : s.Ready) :
    p.Backtracks s :=
  h.recognizes.onward.backtracks hs fun _ => h.restores hs

theorem Onward.attempt_backtracks (h : p.Onward) (hs : s.Ready) (production : String) :
    (p.attempt production).Backtracks s := by
  refine (h.attempt production).backtracks hs fun t ht => ?_
  have hrun := h (s.enter production) (hs.enter production)
  rw [Parser.attempt] at ht
  cases hr : p (s.enter production) with
  | mk o u =>
      rw [hr] at ht hrun
      cases o with
      | matched a => cases ht
      | failed d => cases ht
      | noMatch =>
          obtain ⟨-, rfl⟩ := Prod.mk.inj ht
          exact ParserState.index_retreat hrun

/-- A list of items matches even if there is none. -/
theorem listed_ne_noMatch {production : String} {item : Parser α} {s : ParserState} :
    (listed production item s).1 ≠ .noMatch := by
  intro h
  rw [listed, bind_apply, optional] at h
  cases hr : separated production item s with
  | mk o t =>
      rw [hr] at h
      cases o <;> cases h

end Parser

/-! ## Productions -/

/-- The productions of statements and definitions. -/
inductive Production where
  | statement
  | form (f : StmtForm)
  | block
  | argumentList
  | param
  | paramList
  | fnDef
  | globalVar
  | global
deriving DecidableEq

namespace Production

/-- What a production makes of the tokens. -/
abbrev Result : Production → Type
  | statement | form _ => Stmt
  | block => List Stmt × Token
  | argumentList => List Expr
  | param => Param
  | paramList => List Param
  | fnDef => FnDef
  | globalVar => GlobalVar
  | global => Global

def parser : ∀ q : Production, Parser q.Result
  | statement => Parser.statement
  | form f => Parser.statementOf Parser.statement f
  | block => Parser.block
  | argumentList => Parser.argumentList
  | param => Parser.param
  | paramList => Parser.paramList
  | fnDef => Parser.fnDef
  | globalVar => Parser.globalVar
  | global => Parser.global

/-- A list may have no items, and then is no token. -/
def MayBeEmpty (q : Production) : Prop := q = argumentList ∨ q = paramList

variable {s t : ParserState} (hs : s.Ready)
include hs

theorem backtracks (q : Production) : q.parser.Backtracks s := by
  cases q with
  | statement => exact Parser.readsStmts_statement.tries.backtracks hs
  | form f => exact (Parser.statementOf_tries Parser.readsStmts_statement f).backtracks hs
  | block => exact (Parser.blockOf_tries Parser.readsStmts_statement).backtracks hs
  | argumentList =>
      exact Parser.argumentList_recognizes.onward.backtracks hs fun t ht =>
        absurd (congrArg Prod.fst ht) Parser.listed_ne_noMatch
  | param => exact Parser.param_tries.backtracks hs
  | paramList =>
      exact Parser.paramList_recognizes.onward.backtracks hs fun t ht =>
        absurd (congrArg Prod.fst ht) Parser.listed_ne_noMatch
  | fnDef => exact Parser.fnDef_tries.backtracks hs
  | globalVar => exact Parser.globalVar_tries.backtracks hs
  | global => exact Parser.global_tries.backtracks hs

omit hs in
theorem index_lt_of_readsOn {p : Parser α} {item : Steps α} {a : α}
    (hitem : item.run ParserCall.parser = p) (h : item.ReadsOn ParserCall.parser s)
    (ht : p s = (.matched a, t)) : s.cursor.index < t.cursor.index := by
  rw [← hitem] at ht
  exact (h.matched ht).index_lt

theorem index_lt (q : Production) {a : q.Result} (hq : ¬q.MayBeEmpty)
    (ht : q.parser s = (.matched a, t)) : s.cursor.index < t.cursor.index := by
  have honward := ParserCall.parser_onward
  cases q with
  | statement =>
      exact (Parser.statement_consumes.strictlyPrecedes Parser.statement_onward hs ht).index_lt
  | form f =>
      exact index_lt_of_readsOn (Steps.run_form rfl rfl f) (Steps.form_readsOn honward hs f) ht
  | block => exact index_lt_of_readsOn (Steps.run_block rfl) (Steps.block_readsOn honward hs) ht
  | argumentList => exact absurd (.inl rfl) hq
  | param => exact index_lt_of_readsOn Steps.run_param (Steps.param_readsOn honward hs) ht
  | paramList => exact absurd (.inr rfl) hq
  | fnDef =>
      exact index_lt_of_readsOn (Steps.run_fnDef rfl rfl) (Steps.fnDef_readsOn honward hs) ht
  | globalVar =>
      exact index_lt_of_readsOn Steps.run_globalVar (Steps.globalVar_readsOn honward hs) ht
  | global =>
      exact index_lt_of_readsOn (Steps.run_global rfl rfl) (Steps.global_readsOn honward hs) ht

end Production

/-- Run from any state that parsing tokens up to an end mark can lead to, every production
backtracks, and it has read a token if it matches, unless it is a list. An expression that
may be missing backtracks as well, and so does an attempt of any steps. -/
theorem Parser.backtracks_of_reachable (body : List Token) (last : Token)
    (h : last.kind = .endOfInput) (s : ParserState) (hs : s.Reachable (body ++ [last])) :
    (∀ q : Production, q.parser.Backtracks s ∧
      (¬q.MayBeEmpty → ∀ a t, q.parser s = (.matched a, t) →
        s.cursor.index < t.cursor.index)) ∧
    Parser.expression?.Backtracks s ∧
    ∀ {α : Type} (production : String) (p : Steps α),
      ((p.run ParserCall.parser).attempt production).Backtracks s := by
  have hready := hs.ready h
  refine ⟨fun q => ⟨q.backtracks hready, fun hq a t => q.index_lt hready hq⟩,
    Parser.expression?_tries.backtracks hready, fun production p => ?_⟩
  exact (Procedure.run_onward ParserCall.parser_onward p).attempt_backtracks hready production

/-- A parameter without a name is given up, inside of a list inside of a definition. -/
theorem Parser.backtracks_of_nameless :
    let body : List Token := [⟨.openParen, "(", ⟨1, 1⟩⟩, ⟨.identifier, "int", ⟨1, 2⟩⟩,
      ⟨.closeParen, ")", ⟨1, 5⟩⟩]
    let last := Token.endOfInput ⟨1, 6⟩
    let outside := (ParserState.ofTokens (body ++ [last]) "program").enter "function definition"
    let s := outside.advanced.enter "parameter list"
    last.kind = .endOfInput ∧ s.Reachable (body ++ [last]) ∧ s.cursor.index = 1 ∧
      ∃ t, Production.param.parser s = (.noMatch, t) ∧ t.cursor.index = 1 ∧
        t.cursor.marks = [1, 0] ∧ t.production = "parameter list" := by
  intro body last outside s
  have hs : s.Reachable (body ++ [last]) :=
    ((ParserState.Reachable.start "program").enter "function definition").advanced.enter _
  have hplace : s.cursor.index = 1 ∧ s.cursor.marks = [1, 0] ∧
      s.production = "parameter list" := by
    decide +kernel
  have hnone : (Production.param.parser s).1 = .noMatch := by decide +kernel
  obtain ⟨hmarks, hproduction, -, -, hrestores⟩ :=
    ((Parser.backtracks_of_reachable body last rfl s hs).1 .param).1
  cases hr : Production.param.parser s with
  | mk o t =>
      rw [hr] at hnone hmarks hproduction hrestores
      obtain rfl : o = .noMatch := hnone
      exact ⟨rfl, hs, hplace.1, t, rfl, (hrestores rfl).trans hplace.1,
        hmarks.trans hplace.2.1, hproduction.trans hplace.2.2⟩

end ScriptFront
