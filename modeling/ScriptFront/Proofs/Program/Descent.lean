import ScriptFront.Proofs.Expr.Powers
import ScriptFront.Proofs.Program.Routines

/-!
# Calls descend

Every call that a parser makes leads on: a token has been read before it, or else the parser
that is called is of lower rank. Most parsers read a token before anything else. A
repetition first runs the parser for an item, and goes on behind the item; a program and an
expression that is all of the input begin with a call. That is why there are two ranks, and
two are enough.
-/
namespace ScriptFront

open Procedure (CallsOnly ReadsOn)

namespace Procedure

variable {Call : Type} {Answer : Call → Type} {env : ∀ c, Parser (Answer c)} {s : ParserState}
  (henv : ∀ c, (env c).Onward) (hs : s.Ready)
include henv hs

theorem typeName_readsOn : (typeName : Procedure Answer TypeName).ReadsOn env s :=
  .accept_bind henv hs (by decide)

theorem ident_readsOn : (ident : Procedure Answer Ident).ReadsOn env s :=
  .accept_bind henv hs (by decide)

end Procedure

namespace Steps

open Procedure

variable {m : Meanings} {s : ParserState}

section
variable (henv : ∀ c, (ParserCall.parserAmong m c).Onward) (hs : s.Ready)
include henv hs

theorem opening_readsOn (hk : s.cursor.current.kind ≠ .endOfInput) (o : Opening) :
    (opening o).ReadsOn (ParserCall.parserAmong m) s := by
  cases o <;> exact .advance_bind henv hs hk

theorem operand_readsOn : operand.ReadsOn (ParserCall.parserAmong m) s := by
  refine .look_bind fun kind hkind => .look_bind fun g hg => ?_
  obtain rfl := Outcome.matched.inj hkind
  obtain rfl := Outcome.matched.inj hg
  split
  · next o ho =>
      refine opening_readsOn henv hs ?_ o
      intro hk
      rw [hk, hs.operators] at ho
      cases ho
  · refine ⟨CallsOnly.advance.bind fun _ _ _ => .finish, fun ht => ?_⟩
    cases ht

theorem continuation_readsOn (hk : s.cursor.current.kind ≠ .endOfInput) (left : Expr)
    (power : BindingPower) (c : Continuation) :
    (continuation left power c).ReadsOn (ParserCall.parserAmong m) s := by
  cases c <;> exact .advance_bind henv hs hk

theorem nextArgument_readsOn : nextArgument.ReadsOn (ParserCall.parserAmong m) s :=
  .attempt (.accept_bind henv (hs.enter _) (by decide))

theorem block_readsOn : block.ReadsOn (ParserCall.parserAmong m) s :=
  .attempt (.accept_bind henv (hs.enter _) (by decide))

theorem form_readsOn (f : StmtForm) : (form f).ReadsOn (ParserCall.parserAmong m) s := by
  cases f with
  | whileLoop | breakLoop | emptyReturn | valueReturn | empty =>
      exact .attempt (.accept_bind henv (hs.enter _) (by decide))
  | call | assign => exact .attempt ((ident_readsOn henv (hs.enter _)).bind henv (hs.enter _))
  | varDecl => exact .attempt ((typeName_readsOn henv (hs.enter _)).bind henv (hs.enter _))
  | ifThen =>
      refine .look_bind fun kind _ => ?_
      split_ifs
      · exact .attempt (.accept_bind henv (hs.enter _) (by decide))
      · exact .finish nofun
  | block => exact (block_readsOn henv hs).bind henv hs

theorem param_readsOn : param.ReadsOn (ParserCall.parserAmong m) s :=
  .attempt ((typeName_readsOn henv (hs.enter _)).bind henv (hs.enter _))

theorem nextParam_readsOn : nextParam.ReadsOn (ParserCall.parserAmong m) s :=
  .attempt (.accept_bind henv (hs.enter _) (by decide))

theorem fnDef_readsOn : fnDef.ReadsOn (ParserCall.parserAmong m) s :=
  .attempt ((typeName_readsOn henv (hs.enter _)).bind henv (hs.enter _))

theorem globalVar_readsOn : globalVar.ReadsOn (ParserCall.parserAmong m) s :=
  .attempt ((typeName_readsOn henv (hs.enter _)).bind henv (hs.enter _))

theorem global_readsOn : global.ReadsOn (ParserCall.parserAmong m) s :=
  .orElse henv hs ((fnDef_readsOn henv hs).bind henv hs) fun _ ht =>
    (globalVar_readsOn henv (ht.ready hs)).bind henv (ht.ready hs)

end
end Steps

/-! ## Bodies -/

/-- Some parsers run others before they have read anything. These are of lower rank. -/
def Routine.rank : Routine → ℕ
  | program | wholeExpression | statements | arguments => 1
  | globals | moreParams | statement | moreArguments | expression | operators => 0

/-- A call from the state `s` leads on: the state `t` where the next call is made is behind
`s`, or the next call is of lower rank. -/
structure ParserCall.Descends (c : ParserCall) (s : ParserState) (c' : ParserCall)
    (t : ParserState) : Prop extends s.Precedes t where
  descends : s.cursor.index < t.cursor.index ∨ c'.routine.rank < c.routine.rank

/-- The end mark continues no expression. -/
theorem Parser.matched_of_continuation? {power : BindingPower} {s t : ParserState}
    {next? : Option (Continuation × BindingPower)} (hs : s.Ready)
    (h : continuation? power s = (.matched next?, t)) :
    t = s ∧ (next? ≠ none → s.cursor.current.kind ≠ .endOfInput) := by
  rw [continuation?_apply] at h
  obtain ⟨hnext, rfl⟩ := Prod.mk.inj h
  obtain rfl := Outcome.matched.inj hnext
  refine ⟨rfl, fun hsome hk => hsome ?_⟩
  rw [hk, hs.operators]
  split_ifs <;> rfl

namespace ParserCall

variable {m : Meanings} {s : ParserState}

theorem Descends.of_strictlyPrecedes {c c' : ParserCall} {t : ParserState}
    (h : s.StrictlyPrecedes t) : c.Descends s c' t :=
  ⟨h.toPrecedes, .inl h.index_lt⟩

theorem Descends.of_rank {c c' : ParserCall} (h : c'.routine.rank < c.routine.rank) :
    c.Descends s c' s :=
  ⟨.refl s, .inr h⟩

theorem descends_of_readsOn {α : Type} {p : Steps α} {c : ParserCall}
    (h : p.ReadsOn (parserAmong m) s) : p.CallsOnly (parserAmong m) s (c.Descends s) :=
  fun e he => .of_strictlyPrecedes (h.calls e he)

section
variable (henv : ∀ c, (parserAmong m c).Onward) (hs : s.Ready)
include henv hs

/-- A repetition goes on behind an item that has read something. -/
theorem descends_orNothing {α : Type} {item : Steps α} {more : Steps (List α)} {c : ParserCall}
    (hitem : item.CallsOnly (parserAmong m) s (c.Descends s))
    (hread : ∀ a t, item.run (parserAmong m) s = (.matched a, t) → s.StrictlyPrecedes t) :
    (item.orNothing more).CallsOnly (parserAmong m) s (c.Descends s) := by
  refine .orNothing hitem fun a t ht e he => .of_strictlyPrecedes ?_
  exact (ReadsOn.of_strictlyPrecedes henv hs (hread a t ht) more).1 e he

theorem descends_of_item {α : Type} {item : Steps α} {more : Steps (List α)} {c : ParserCall}
    (h : item.ReadsOn (parserAmong m) s) :
    (item.orNothing more).CallsOnly (parserAmong m) s (c.Descends s) :=
  descends_orNothing henv hs (descends_of_readsOn h) fun _ _ => h.matched

/-- Every call leads on, if a statement that is matched has been read. -/
theorem body_descends (hread : m.statement.Consumes) (c : ParserCall) :
    c.body.CallsOnly (parserAmong m) s (c.Descends s) := by
  cases c with
  | program =>
      have hglobals : Steps.globals.CallsOnly (parserAmong m) s (program.Descends s) :=
        .call (.of_rank (by decide))
      refine hglobals.bind fun _ t _ => .look_bind fun kind _ => ?_
      split_ifs
      · exact .finish
      · exact .look
  | globals => exact descends_of_item henv hs (Steps.global_readsOn henv hs)
  | moreParams => exact descends_of_item henv hs (Steps.nextParam_readsOn henv hs)
  | statement =>
      refine .look_bind fun g _ => descends_of_readsOn (.firstOf henv hs fun p hp t ht => ?_)
      obtain ⟨f, -, rfl⟩ := List.mem_map.mp hp
      exact Steps.form_readsOn henv (ht.ready hs) f
  | statements =>
      have hstatement : Steps.statement.CallsOnly (parserAmong m) s (statements.Descends s) :=
        .call (.of_rank (by decide))
      refine descends_orNothing henv hs hstatement fun a t ht => ?_
      exact hread.strictlyPrecedes (henv .statement) hs ht
  | moreArguments => exact descends_of_item henv hs (Steps.nextArgument_readsOn henv hs)
  | wholeExpression =>
      have hexpression : (Steps.expression .lowest).CallsOnly (parserAmong m) s
          (wholeExpression.Descends s) := .call (.of_rank (by decide))
      refine hexpression.bind fun _ t _ => .look_bind fun kind _ => ?_
      split_ifs
      · exact .finish
      · exact CallsOnly.advance.bind fun _ _ _ => .look
  | expression power =>
      exact descends_of_readsOn ((Steps.operand_readsOn henv hs).bind henv hs)
  | operators power left =>
      have hlook : (Procedure.continuation? power : Steps _).CallsOnly (parserAmong m) s
          ((operators power left).Descends s) :=
        .look_bind fun kind _ => .look_bind fun g _ => by
            dsimp only
            split_ifs <;> exact .finish
      refine hlook.bind fun next? t ht => ?_
      rw [Procedure.run_continuation?] at ht
      obtain ⟨rfl, hk⟩ := Parser.matched_of_continuation? hs ht
      cases next? with
      | none => exact .finish
      | some next =>
          have hnext := Steps.continuation_readsOn henv hs (hk nofun) left next.2 next.1
          exact descends_of_readsOn (hnext.bind henv hs)
  | arguments =>
      have hexpression : (Steps.expression .lowest).CallsOnly (parserAmong m) s
          (arguments.Descends s) := .call (.of_rank (by decide))
      refine hexpression.bind fun e t ht => .look_bind fun kind hkind => ?_
      have hfollows := henv (.expression .lowest) s hs
      rw [show parserAmong m (.expression .lowest) s = _ from ht] at hfollows
      obtain rfl := Outcome.matched.inj hkind
      split_ifs with hcomma
      · have hnext := hfollows.ready hs
        have hbehind : (Procedure.advance >>= fun _ => Steps.arguments >>= fun rest =>
            pure (e :: rest)).ReadsOn (parserAmong m) t :=
          .advance_bind henv hnext (by rw [hcomma]; decide)
        exact fun c hc => .of_strictlyPrecedes
          (hfollows.precedes.trans_strictly (hbehind.calls c hc))
      · exact .finish

end

end ParserCall

end ScriptFront
