import ScriptFront.Proofs.Program.Declared
import ScriptFront.Proofs.Program.Language
import ScriptFront.Proofs.Token.Words

/-!
# Declared names

Every name that a program declares is an identifier among the tokens of the
program. So it is not the name under which the result of a function is declared.
-/
namespace ScriptFront

variable {expr : Expr → List Token → Prop} {name : Token}

/-- The phrase declares the name in one of its statements. -/
def StmtPhrase.Declares (name : Token) : StmtPhrase → Prop
  | stmt s => s.Declares name
  | stmts ss => ∃ s ∈ ss, s.Declares name

/-- The token is an identifier among others. -/
def Token.IsNameIn (name : Token) (w : List Token) : Prop :=
  name ∈ w ∧ name.kind = .identifier

theorem Token.IsNameIn.mono {w v : List Token} (h : name.IsNameIn w) (hsub : w ⊆ v) :
    name.IsNameIn v :=
  h.imp_left fun hmem => hsub hmem

theorem StmtPhrase.SpelledBy.names {p : StmtPhrase} {w : List Token} (h : p.SpelledBy expr w)
    (hd : p.Declares name) : name.IsNameIn w := by
  induction h with
  | call | breakLoop | returnValue | assign | empty => cases hd
  | varDecl _ hname =>
      cases hd
      exact ⟨by simp, hname⟩
  | whileLoop _ _ _ _ _ ih =>
      cases hd with
      | whileLoop hd => exact (ih hd).mono fun t ht => by simp [ht]
  | ifThen _ _ _ _ _ ih =>
      cases hd with
      | ifThen hd => exact (ih hd).mono fun t ht => by simp [ht]
  | ifThenElse _ _ _ _ _ _ _ _ ihthen ihelse =>
      cases hd with
      | thenBranch hd => exact (ihthen hd).mono fun t ht => by simp [ht]
      | elseBranch hd => exact (ihelse hd).mono fun t ht => by simp [ht]
  | block _ _ _ ih =>
      cases hd with
      | block hs hd => exact (ih ⟨_, hs, hd⟩).mono fun t ht => by simp [ht]
  | nil =>
      obtain ⟨s, hs, -⟩ := hd
      cases hs
  | cons _ _ ihs ihss =>
      obtain ⟨s, hs, hd⟩ := hd
      cases hs with
      | head => exact (ihs hd).mono fun t ht => by simp [ht]
      | tail _ hs => exact (ihss ⟨s, hs, hd⟩).mono fun t ht => by simp [ht]

theorem Param.SpelledBy.names {p : Param} {w : List Token} (h : p.SpelledBy w) :
    p.name.IsNameIn w := by
  cases h with
  | intro _ hname => exact ⟨by simp, hname⟩

theorem Braced.names {ss : List Stmt} {openBrace : Token} {w : List Token}
    (h : Braced expr (ss, openBrace) w) {s : Stmt} (hs : s ∈ ss) (hd : s.Declares name) :
    name.IsNameIn w := by
  have hblock : (StmtPhrase.stmt (.block ss openBrace)).Declares name := .block hs hd
  exact h.stmt.names hblock

theorem Global.SpelledBy.names {g : Global} {w : List Token} (h : g.SpelledBy expr w)
    (hd : g.Declares name) : name.IsNameIn w := by
  cases h with
  | function hf =>
      cases hf with
      | intro _ hname _ hparams _ hbody =>
          cases hd with
          | function heq =>
              subst heq
              exact ⟨by simp, hname⟩
          | param hp heq =>
              subst heq
              obtain ⟨v, hv, hsub⟩ := hparams.exists_of_mem hp
              exact (hv.names.mono hsub).mono fun t ht => by simp [ht]
          | body hs hd => exact (hbody.names hs hd).mono fun t ht => by simp [ht]
  | var hv =>
      cases hv with
      | intro _ hname =>
          cases hd with
          | var heq =>
              subst heq
              exact ⟨by simp, hname⟩

theorem Program.SpelledBy.names {p : Program} {w : List Token} (h : p.SpelledBy expr w)
    {g : Global} (hg : g ∈ p.globals) (hd : g.Declares name) : name.IsNameIn w := by
  obtain ⟨v, hv, hsub⟩ := Repeated.exists_of_mem h hg
  exact (hv.names hd).mono hsub

/-- The program of a source is spelled by its tokens in front of the end mark. -/
theorem Program.exists_spelledBy {source : String} {tokens : List Token} {p : Program}
    (hsource : Token.ofSource source = .ok tokens) (hp : Program.ofTokens tokens = .ok p) :
    ∃ body place, tokens = body ++ [.endOfInput place] ∧ (∀ t ∈ body, t.Lexical) ∧
      p.SpelledBy Expr.SpelledBy body := by
  obtain ⟨body, place, rfl, hbody⟩ := Token.ofSource_ok hsource
  exact ⟨body, place, rfl, hbody, spelledBy_of_ofTokens rfl (fun t ht => (hbody t ht).inside) hp⟩

/-- A source about whose program something can be said is cut into tokens and parsed. -/
theorem Program.exists_of_source {α : Type} {source : String} {f : Program → α} {a : α}
    (h : ((Token.ofSource source).bind ofTokens).map f = .ok a) : ∃ tokens p,
      Token.ofSource source = .ok tokens ∧ ofTokens tokens = .ok p ∧ f p = a := by
  cases hsource : Token.ofSource source with
  | error d =>
      rw [hsource] at h
      cases h
  | ok tokens =>
      rw [hsource, Except.bind] at h
      cases hp : ofTokens tokens with
      | error d =>
          rw [hp] at h
          cases h
      | ok p =>
          rw [hp] at h
          exact ⟨tokens, p, rfl, hp, Except.ok.inj h⟩

/-- No name that is declared in a source is the name of a result. -/
theorem Program.name_ne_returnValueName {source : String} {tokens : List Token} {p : Program}
    (hsource : Token.ofSource source = .ok tokens) (hp : Program.ofTokens tokens = .ok p)
    {g : Global} (hg : g ∈ p.globals) {name : Token} (hname : g.Declares name) :
    name.text ≠ Symbol.returnValueName := by
  obtain ⟨body, place, rfl, hbody, hspelled⟩ := exists_spelledBy hsource hp
  obtain ⟨hmem, hkind⟩ := Program.SpelledBy.names hspelled hg hname
  exact (hbody name hmem).text_ne_returnValueName hkind

end ScriptFront
