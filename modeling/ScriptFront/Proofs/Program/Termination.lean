import Mathlib.Logic.Relation
import ScriptFront.Proofs.Program.Unbounded

/-!
# The parser comes to an end

The calls that are made inside of a call form a tree. On a branch the place in the stream
never moves back, and where it stays the rank of the parser goes down. So the number of
tokens left decreases, or else the rank does, and the tree is finite. A parser that runs
itself, directly or through others, is not of lower rank than it is, so it does so behind a
token that has been read. That holds of expressions inside expressions, of statements inside
statements, and of a further round of a repetition.
-/
namespace ScriptFront

open Procedure (Takes)

/-! ## Finite runs -/

namespace ParserCall

variable {c c' c'' : ParserCall} {s t u : ParserState}

theorem Descends.trans (h : c.Descends s c' t) (k : c'.Descends t c'' u) :
    c.Descends s c'' u := by
  refine ⟨h.toPrecedes.trans k.toPrecedes, ?_⟩
  have := h.index
  have := k.index
  have := h.descends
  have := k.descends
  omega

/-- The number of tokens left decreases, or else the rank. -/
theorem Descends.lex (hs : s.Ready) (h : c.Descends s c' t) :
    Prod.Lex (· < ·) (· < ·) (t.cursor.remaining, c'.routine.rank)
      (s.cursor.remaining, c.routine.rank) := by
  rcases h.descends with hindex | hrank
  · exact .left _ _ (ParserState.StrictlyPrecedes.remaining_lt ⟨h.toPrecedes, hindex⟩ hs)
  · exact .right' _ h.remaining_le hrank

/-- Every call ends after a number of steps, with the outcome of the parser that it calls. -/
theorem ends (c : ParserCall) (s : ParserState) (hs : s.Ready) :
    ∃ n, Takes body (.call c) s n (c.parser s).1 (c.parser s).2 := by
  have hcalls : c.body.CallsOnly parser s fun c' t =>
      ∃ n, Takes body (.call c') t n (c'.parser t).1 (c'.parser t).2 := by
    intro e he
    have hdescends := body_descends parser_onward hs Parser.statement_consumes c e he
    exact ends e.1 e.2 (hdescends.ready hs)
  obtain ⟨n, htakes⟩ := Procedure.takes_of_calls hcalls
  rw [parser_eq_body hs]
  exact ⟨n + 1, .call htakes⟩
termination_by (s.cursor.remaining, c.routine.rank)
decreasing_by exact hdescends.lex hs

end ParserCall

/-! ## Calls inside of calls -/

/-- A call, and the state where it is made. -/
structure ParserEntry where
  call : ParserCall
  state : ParserState

namespace ParserEntry

/-- The second call is made in the course of the first, and not inside of another one. -/
def Enters (e e' : ParserEntry) : Prop :=
  (e'.call, e'.state) ∈ e.call.body.calls ParserCall.parser e.state

/-- The second call is made inside of the first, at any depth. -/
def Inside (e e' : ParserEntry) : Prop := Relation.TransGen Enters e e'

/-- The second call is the first or is made inside of it. -/
def Reaches (e e' : ParserEntry) : Prop := Relation.ReflTransGen Enters e e'

/-- The states that are gone through in the course of a call, those inside of another call
left out. -/
def visits (e : ParserEntry) : List ParserState :=
  e.call.body.visits ParserCall.parser e.state

variable {e e' start : ParserEntry}

theorem Enters.descends (h : e.Enters e') (hs : e.state.Ready) :
    e.call.Descends e.state e'.call e'.state :=
  ParserCall.body_descends ParserCall.parser_onward hs Parser.statement_consumes e.call _ h

theorem Inside.descends (h : e.Inside e') (hs : e.state.Ready) :
    e.call.Descends e.state e'.call e'.state := by
  induction h with
  | single h => exact h.descends hs
  | tail _ h ih => exact ih.trans (h.descends (ih.ready hs))

theorem Reaches.precedes (h : e.Reaches e') (hs : e.state.Ready) : e.state.Precedes e'.state := by
  induction h with
  | refl => exact .refl _
  | tail _ h ih => exact ih.trans (h.descends (ih.ready hs)).toPrecedes

/-- A call comes to an end after finitely many steps. All that it reaches does what its
procedure says, reads on before it runs itself again, and stays in the stream. -/
structure Terminates (start : ParserEntry) : Prop where
  ends : ∃ n, Takes ParserCall.body (.call start.call) start.state n
    (start.call.parser start.state).1 (start.call.parser start.state).2
  steps (e : ParserEntry) : start.Reaches e →
    e.call.parser e.state = e.call.body.run ParserCall.parser e.state
  reads (e e' : ParserEntry) : start.Reaches e → e.Inside e' →
    e'.call.routine = e.call.routine → e.state.cursor.index < e'.state.cursor.index
  stays (e : ParserEntry) : start.Reaches e → ∀ t ∈ e.visits,
    t.cursor.stream = start.state.cursor.stream ∧ t.cursor.index < t.cursor.stream.size

theorem terminates_of_ready (hs : start.state.Ready) : start.Terminates where
  ends := start.call.ends start.state hs
  steps e he := ParserCall.parser_eq_body ((he.precedes hs).ready hs) e.call
  reads e e' he h hroutine := by
    have hready := (he.precedes hs).ready hs
    exact ((h.descends hready).strictlyPrecedes (by rw [hroutine])).index_lt
  stays e he t ht := by
    have hready := (he.precedes hs).ready hs
    have hvisit := Procedure.precedes_of_mem_visits ParserCall.parser_onward hready ht
    exact ⟨((he.precedes hs).trans hvisit).stream, (hvisit.ready hready).inside⟩

end ParserEntry

/-- In front of any tokens up to an end mark, the parsers for programs and for expressions
come to an end. -/
theorem Parser.terminates (body : List Token) (last : Token) (h : last.kind = .endOfInput) :
    ParserEntry.Terminates ⟨.program, .ofTokens (body ++ [last]) "program"⟩ ∧
      ParserEntry.Terminates ⟨.wholeExpression, .ofTokens (body ++ [last]) "expression"⟩ :=
  ⟨ParserEntry.terminates_of_ready (ParserState.ready_ofTokens _ _ h),
    ParserEntry.terminates_of_ready (ParserState.ready_ofTokens _ _ h)⟩

/-- An expression in parentheses that are left open. -/
theorem Parser.terminates_of_unclosed :
    let body : List Token := [⟨.openParen, "(", ⟨1, 1⟩⟩, ⟨.dash, "-", ⟨1, 2⟩⟩,
      ⟨.identifier, "x", ⟨1, 3⟩⟩]
    let last := Token.endOfInput ⟨1, 4⟩
    last.kind = .endOfInput ∧
      ParserEntry.Terminates ⟨.program, .ofTokens (body ++ [last]) "program"⟩ ∧
      ParserEntry.Terminates ⟨.wholeExpression, .ofTokens (body ++ [last]) "expression"⟩ :=
  ⟨rfl, Parser.terminates _ _ rfl⟩

end ScriptFront
