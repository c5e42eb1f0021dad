import ScriptFront.Proofs.Grammar.Program
import ScriptFront.Proofs.Stmt.Recognition

/-!
# The program parser reads programs only

Whatever the program parser matches is spelled by the tokens it has read, and it
matches in front of an end mark only. No token is read behind which no program
could go on.
-/
namespace ScriptFront.Parser

open TokenKind (kind_sample)

theorem param_tries : param.Tries Param.SpelledBy := by
  refine .attempt fun s hs => .bind (typeName_recognizes s hs) ?_ ?_
  · intro type w htype
    exact ⟨_, _, .intro htype (kind_sample _)⟩
  · intro type w t _ hw htype
    refine .accept_bind (hw.ready hs) ⟨_, _, .intro htype (kind_sample _)⟩ (by decide)
      fun name _ hname _ => ?_
    exact .pure (.intro htype hname)

theorem param_inhabited : ∃ p w, Param.SpelledBy p w :=
  ⟨_, _, .intro (.plain (kind_sample _)) (kind_sample _)⟩

theorem paramList_recognizes : paramList.Recognizes (Listed Param.SpelledBy) :=
  paramList_eq ▸ listed_recognizes param_tries.recognizes param_inhabited

theorem fnDef_tries : fnDef.Tries (FnDef.SpelledBy Expr.SpelledBy) := by
  have hblock : Braced Expr.SpelledBy ([], TokenKind.openCurly.sample) _ :=
    .intro (kind_sample _) .nil (kind_sample .closeCurly)
  refine .attempt fun s hs => .bind (typeName_recognizes s hs) ?_ ?_
  · intro type w htype
    exact ⟨_, _, .intro htype (kind_sample _) (kind_sample _) .nil (kind_sample _) hblock⟩
  · intro type w t _ hw htype
    refine .accept_bind (hw.ready hs)
      ⟨_, _, .intro htype (kind_sample _) (kind_sample _) .nil (kind_sample _) hblock⟩
      (by decide) fun name u hname hu => ?_
    refine .accept_bind hu
      ⟨_, _, .intro htype hname (kind_sample _) .nil (kind_sample _) hblock⟩
      (by decide) fun o v ho hv => ?_
    refine .bind (paramList_recognizes v hv) ?_ ?_
    · intro params y hparams
      exact ⟨_, _, .intro htype hname ho hparams (kind_sample _) hblock⟩
    · intro params y x _ hy hparams
      refine .accept_bind (hy.ready hv)
        ⟨_, _, .intro htype hname ho hparams (kind_sample _) hblock⟩ (by decide)
        fun c z hc hz => ?_
      exact .bind_pure (block_recognizes z hz)
        fun _ _ hbody => .intro htype hname ho hparams hc hbody

theorem globalVar_tries : globalVar.Tries GlobalVar.SpelledBy := by
  refine .attempt fun s hs => .bind (typeName_recognizes s hs) ?_ ?_
  · intro type w htype
    exact ⟨_, _, .intro htype (kind_sample _) (kind_sample _)⟩
  · intro type w t _ hw htype
    refine .accept_bind (hw.ready hs) ⟨_, _, .intro htype (kind_sample _) (kind_sample _)⟩
      (by decide) fun name u hname hu => ?_
    refine .accept_bind hu ⟨_, _, .intro htype hname (kind_sample _)⟩ (by decide)
      fun semi _ hsemi _ => ?_
    exact .pure (.intro htype hname hsemi)

theorem global_tries : global.Tries (Global.SpelledBy Expr.SpelledBy) :=
  .orElse (.bind_pure fnDef_tries fun _ _ => .function)
    (.bind_pure globalVar_tries fun _ _ => .var)

/-- The end of the input is not read, but required. -/
theorem program_recognizes : program.Recognizes (Program.SpelledBy Expr.SpelledBy) := by
  intro s hs
  refine .bind (global_tries.many s hs) ?_ ?_
  · intro globals w h
    exact ⟨⟨globals⟩, [], by simpa [Program.SpelledBy] using h⟩
  · intro globals w t _ _ h
    refine .currentKind_bind ?_
    split_ifs
    · exact .pure (by simpa [Program.SpelledBy] using h)
    · exact .stop

theorem program_ends (s : ParserState) :
    program.Ensures s fun _ t => t.cursor.current.kind = .endOfInput := by
  refine .bind fun globals t _ => .bind fun k u hu => ?_
  cases hu
  split_ifs with hk
  · exact .pure hk
  · exact .stop

end ScriptFront.Parser
