import ScriptFront.Proofs.Grammar.Program
import ScriptFront.Proofs.Stmt.Matching

/-!
# The program parser reads every program

A definition is tried as a function first. What follows the name decides between
the two: a function goes on with a parenthesis, a variable with a semicolon.
-/
namespace ScriptFront.Parser

variable {s : ParserState} {t : Token} {w r : List Token}

theorem typeName_rejectsAt (hs : s.Ready) (hr : s.rest = t :: r) (hk : t.kind ≠ .identifier) :
    typeName.RejectsAt s :=
  (accept_rejectsAt hs hr hk).bind

theorem param_matchesAt {p : Param} (h : p.SpelledBy w) (hs : s.Ready) (hr : s.rest = w ++ r) :
    param.MatchesAt s p w := by
  cases h with
  | @intro type name w htype hname =>
      have hr' : (s.enter "parameter").rest = w ++ name :: r := by simpa using hr
      refine .attempt ((typeName_matchesAt htype (hs.enter _) hr'
        (by rw [hname]; decide)).bind fun u hu => ?_)
      exact accept_bind (hu.ready (hs.enter _)) (hu.rest_of_append hr') hname (by decide)
        fun _ _ _ => .pure

theorem paramList_matchesAt {params : List Param} (h : Listed Param.SpelledBy params w)
    (hs : s.Ready) (hr : s.rest = w ++ t :: r) (ht : t.kind = .closeParen) :
    paramList.MatchesAt s params w := by
  rw [paramList_eq]
  refine listed_matchesAt h hs hr ht (fun hp hu hru _ => param_matchesAt hp hu hru) ?_
  intro u r hu hru
  exact (DeclinesAt.attempt
    (typeName_rejectsAt (hu.enter _) hru (by rw [ht]; decide)).bind).rejectsAt

theorem fnDef_matchesAt {f : FnDef} (h : f.SpelledBy Expr.SpelledBy w) (hs : s.Ready)
    (hr : s.rest = w ++ r) : fnDef.MatchesAt s f w := by
  cases h with
  | @intro type name o c brace params body w v u htype hname ho hparams hc hbody =>
      have hr' : (s.enter "function definition").rest =
          w ++ name :: o :: (v ++ c :: (u ++ r)) := by simpa using hr
      refine .attempt ((typeName_matchesAt htype (hs.enter _) hr'
        (by rw [hname]; decide)).bind fun x hx => ?_)
      refine accept_bind (hx.ready (hs.enter _)) (hx.rest_of_append hr') hname (by decide)
        fun y hy hry => ?_
      refine accept_bind hy hry ho (by decide) fun z hz hrz => ?_
      refine (paramList_matchesAt hparams hz hrz hc).bind fun z' hz' => ?_
      refine accept_bind (hz'.ready hz) (hz'.rest_of_append hrz) hc (by decide)
        fun q hq hrq => ?_
      exact (block_matchesAt hbody hq hrq).bind_pure

theorem globalVar_matchesAt {g : GlobalVar} (h : g.SpelledBy w) (hs : s.Ready)
    (hr : s.rest = w ++ r) : globalVar.MatchesAt s g w ∧ fnDef.DeclinesAt s := by
  cases h with
  | @intro type name semi w htype hname hsemi =>
      have hr' : s.rest = w ++ name :: semi :: r := by simpa using hr
      have hk : name.kind ≠ .openBracket := by rw [hname]; decide
      constructor
      · refine .attempt ((typeName_matchesAt htype (hs.enter _) hr' hk).bind fun x hx => ?_)
        refine accept_bind (hx.ready (hs.enter _)) (hx.rest_of_append hr') hname (by decide)
          fun y hy hry => ?_
        exact accept_bind hy hry hsemi (by decide) fun _ _ _ => .pure
      · refine .attempt ((typeName_matchesAt htype (hs.enter _) hr' hk).bind_rejectsAt
          fun x hx => ?_)
        refine accept_bind_rejectsAt (hx.ready (hs.enter _)) (hx.rest_of_append hr')
          (by simp) fun _ y hy hry => ?_
        exact (accept_rejectsAt hy hry (by rw [hsemi]; decide)).bind

theorem global_matchesAt {g : Global} (h : g.SpelledBy Expr.SpelledBy w) (hs : s.Ready)
    (hr : s.rest = w ++ r) : global.MatchesAt s g w := by
  cases h with
  | function hf => exact (fnDef_matchesAt hf hs hr).bind_pure.orElse
  | var hv =>
      refine (globalVar_matchesAt hv hs hr).2.bind.orElse_matchesAt fun u hu => ?_
      exact (globalVar_matchesAt hv (hu.ready hs) (hu.rest_of_append hr)).1.bind_pure

theorem global_declinesAt (hs : s.Ready) (hr : s.rest = t :: r) (hk : t.kind ≠ .identifier) :
    global.DeclinesAt s := by
  have hfn : fnDef.DeclinesAt s := .attempt (typeName_rejectsAt (hs.enter _) hr hk).bind
  refine hfn.bind.orElse fun u hu => ?_
  have hvar : globalVar.DeclinesAt u :=
    .attempt (typeName_rejectsAt ((hu.ready hs).enter _) (hu.rest_of_append hr) hk).bind
  exact hvar.bind

theorem program_matchesAt {p : Program} (h : p.SpelledBy Expr.SpelledBy w) (hs : s.Ready)
    (hr : s.rest = w ++ t :: r) (ht : t.kind = .endOfInput) : program.MatchesAt s p w := by
  have hmany : (many global).MatchesAt s p.globals w := by
    refine many_matchesAt h (fun _ _ => (·.ne_nil)) hs hr ?_ ?_
    · intro g v u x hg _ hx hrx
      exact global_matchesAt hg hx hrx
    · intro x hx hrx
      exact global_declinesAt hx hrx (by rw [ht]; decide)
  have hall := hmany.bind (v := []) (b := p) (f := fun globals => currentKind >>= fun kind =>
    if kind = .endOfInput then Pure.pure ⟨globals⟩ else stop) fun u hu => by
      refine currentKind_bind (hu.ready hs) (hu.rest_of_append hr) ?_
      rw [if_pos ht]
      exact .pure
  rwa [List.append_nil] at hall

end ScriptFront.Parser
