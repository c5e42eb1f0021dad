import ScriptFront.Proofs.Grammar.Program
import ScriptFront.Proofs.Program.Uses

/-!
# Declarations and uses among the tokens

The tokens of a program hold those of each declaration of a variable in one piece. A
name that is used as a value stands in the initializer of the variable, or in front of
the declaration, or behind all of it.
-/
namespace ScriptFront

variable {t : SymbolTable} {scopes : List ScopeId} {inside? : Option Token} {name : Token}
  {v w : List Token} {u : Use} {us us' : List Use}

/-! ## Uses among the tokens -/

def ExprPhrase.values : ExprPhrase → List Ident
  | expr _ e => e.values
  | arguments es => Expr.values.valuesAll es

theorem ExprPhrase.SpelledBy.token_mem {p : ExprPhrase} (h : p.SpelledBy w) {i : Ident}
    (hi : i ∈ p.values) : i.token ∈ w := by
  induction h with
  | literal | callEmpty => cases hi
  | name =>
      obtain rfl := List.mem_singleton.mp hi
      exact List.mem_singleton.mpr rfl
  | group _ _ _ ih => exact List.mem_cons_of_mem _ (List.mem_append_left _ (ih hi))
  | plus _ _ ih | neg _ _ ih | not _ _ ih => exact List.mem_cons_of_mem _ (ih hi)
  | subscript _ _ _ _ iha ihi =>
      rcases List.mem_append.mp hi with hi | hi
      · simp [iha hi]
      · simp [ihi hi]
  | member _ _ _ ih => exact List.mem_append_left _ (ih hi)
  | call _ _ _ _ _ ih => simp [ih hi]
  | binary _ _ _ iha ihb =>
      change i ∈ if _ then _ else _ at hi
      split_ifs at hi
      · simp [iha hi]
      · rcases List.mem_append.mp hi with hi | hi
        · simp [iha hi]
        · simp [ihb hi]
  | tighter _ _ ih => exact ih hi
  | argument _ ih => exact ih (by simpa [values, Expr.values.valuesAll] using hi)
  | arguments _ _ _ ihe ihes =>
      rcases List.mem_append.mp hi with hi | hi
      · simp [ihe hi]
      · simp [ihes hi]

theorem Expr.SpelledBy.token_mem {e : Expr} (h : e.SpelledBy w)
    (hu : u ∈ e.uses scopes inside?) : u.ident.token ∈ w := by
  obtain ⟨i, hi, rfl⟩ := List.mem_map.mp hu
  exact ExprPhrase.SpelledBy.token_mem h hi

def StmtPhrase.uses (t : SymbolTable) (scopes : List ScopeId) : StmtPhrase → List Use
  | stmt s => s.uses t scopes
  | stmts ss => Stmt.uses.usesAll t scopes ss

theorem StmtPhrase.SpelledBy.token_mem {p : StmtPhrase} (h : p.SpelledBy Expr.SpelledBy w)
    (hu : u ∈ p.uses t scopes) : u.ident.token ∈ w := by
  induction h generalizing scopes with
  | breakLoop | empty | nil => cases hu
  | whileLoop _ _ hcondition _ _ ih | ifThen _ _ hcondition _ _ ih =>
      rcases List.mem_append.mp hu with hu | hu
      · simp [hcondition.token_mem hu]
      · simp [ih hu]
  | ifThenElse _ _ hcondition _ _ _ _ _ ihthen ihelse =>
      rcases List.mem_append.mp hu with hu | hu
      · simp [hcondition.token_mem hu]
      · rcases List.mem_append.mp hu with hu | hu
        · simp [ihthen hu]
        · simp [ihelse hu]
  | call _ _ hargs =>
      obtain ⟨e, he, hu⟩ := List.mem_flatMap.mp hu
      obtain ⟨v, hv, hsub⟩ := hargs.exists_of_mem he
      simp [hsub (hv.token_mem hu)]
  | returnValue _ hvalue =>
      cases hvalue with
      | none => cases hu
      | some he =>
          have hu := List.mem_flatMap.mp hu
          simp only [Option.toList_some, List.mem_singleton, exists_eq_left] at hu
          simp [he.token_mem hu]
  | varDecl _ _ hinitializer =>
      cases hinitializer with
      | none => cases hu
      | some hinitial =>
          obtain ⟨sign, v, -, he, rfl⟩ := hinitial
          have hu := List.mem_flatMap.mp hu
          simp only [Option.toList_some, List.mem_singleton, exists_eq_left] at hu
          simp [he.token_mem hu]
  | assign _ _ hvalue =>
      rcases List.mem_cons.mp hu with rfl | hu
      · simp
      · simp [hvalue.token_mem hu]
  | block _ _ _ ih => simp [ih hu]
  | cons _ _ ihs ihss =>
      rcases List.mem_append.mp hu with hu | hu
      · exact List.mem_append_left _ (ihs hu)
      · exact List.mem_append_right _ (ihss hu)

/-! ## Declarations among the tokens -/

/-- The statement `d` is the statement itself or one inside of it. -/
inductive Stmt.Holds : Stmt → Stmt → Prop
  | itself {d : Stmt} : Holds d d
  | whileLoop {condition : Expr} {body d : Stmt} {token : Token} :
      Holds body d → Holds (.whileLoop condition body token) d
  | ifThen {condition : Expr} {thenBranch d : Stmt} {token : Token} :
      Holds thenBranch d → Holds (.ifThen condition thenBranch token) d
  | thenBranch {condition : Expr} {thenBranch elseBranch d : Stmt} {token : Token} :
      Holds thenBranch d → Holds (.ifThenElse condition thenBranch elseBranch token) d
  | elseBranch {condition : Expr} {thenBranch elseBranch d : Stmt} {token : Token} :
      Holds elseBranch d → Holds (.ifThenElse condition thenBranch elseBranch token) d
  | block {statements : List Stmt} {openBrace : Token} {s d : Stmt} :
      s ∈ statements → Holds s d → Holds (.block statements openBrace) d

def StmtPhrase.Holds (d : Stmt) : StmtPhrase → Prop
  | stmt s => s.Holds d
  | stmts ss => ∃ s ∈ ss, s.Holds d

/-- The tokens `v` are one piece of the tokens `w`. Every use is in front of them or
behind, but for those in the initializer of the variable. -/
def SetOff (name : Token) (us : List Use) (v w : List Token) : Prop :=
  ∃ before after, w = before ++ v ++ after ∧
    ∀ u ∈ us, u.inside? = some name ∨ u.ident.token ∈ before ∨ u.ident.token ∈ after

/-- It is the same with more tokens on both sides, among which there are further uses. -/
theorem SetOff.extend (h : SetOff name us v w) {w' : List Token} (x y : List Token)
    (heq : w' = x ++ w ++ y)
    (hus : ∀ u ∈ us', u ∈ us ∨ u.ident.token ∈ x ∨ u.ident.token ∈ y) : SetOff name us' v w' := by
  obtain ⟨before, after, rfl, hsides⟩ := h
  refine ⟨x ++ before, after ++ y, by simp only [heq, List.append_assoc], fun u hu => ?_⟩
  rcases hus u hu with hu | hu | hu
  · rcases hsides u hu with hu | hu | hu
    · exact .inl hu
    · exact .inr (.inl (List.mem_append_right _ hu))
    · exact .inr (.inr (List.mem_append_left _ hu))
  · exact .inr (.inl (List.mem_append_left _ hu))
  · exact .inr (.inr (List.mem_append_right _ hu))

/-- The phrase holds the declaration of a variable, and its tokens are set off. -/
def StmtPhrase.DeclaresApart (name : Token) (us : List Use) (w : List Token) (p : StmtPhrase) :
    Prop :=
  ∃ type initializer? v, p.Holds (.varDecl type name initializer? none) ∧
    Stmt.SpelledBy Expr.SpelledBy (.varDecl type name initializer? none) v ∧ SetOff name us v w

theorem StmtPhrase.DeclaresApart.extend {p q : StmtPhrase} (h : p.DeclaresApart name us w)
    (hholds : ∀ d, p.Holds d → q.Holds d) {w' : List Token} (x y : List Token)
    (heq : w' = x ++ w ++ y)
    (hus : ∀ u ∈ us', u ∈ us ∨ u.ident.token ∈ x ∨ u.ident.token ∈ y) :
    q.DeclaresApart name us' w' := by
  obtain ⟨type, initializer?, v, hd, hv, hoff⟩ := h
  exact ⟨type, initializer?, v, hholds _ hd, hv, hoff.extend x y heq hus⟩

/-- A variable that is declared in a phrase is set off among its tokens. -/
theorem StmtPhrase.SpelledBy.declaresApart {p : StmtPhrase} (h : p.SpelledBy Expr.SpelledBy w)
    (hd : p.Declares name) (scopes : List ScopeId) :
    p.DeclaresApart name (p.uses t scopes) w := by
  induction h generalizing scopes with
  | call | breakLoop | returnValue | assign | empty => cases hd
  | nil =>
      obtain ⟨s, hs, -⟩ := hd
      cases hs
  | @varDecl type n semicolon initializer? w v htype hname hinitializer hsemicolon =>
      cases hd
      refine ⟨type, initializer?, _, .itself, .varDecl htype hname hinitializer hsemicolon,
        [], [], (List.append_nil _).symm, fun u hu => .inl ?_⟩
      obtain ⟨e, -, hu⟩ := List.mem_flatMap.mp hu
      obtain ⟨i, -, rfl⟩ := List.mem_map.mp hu
      rfl
  | @whileLoop t opening closing _ _ w v _ _ hcondition _ _ ih =>
      cases hd with
      | whileLoop hd =>
          refine (ih hd scopes).extend (q := .stmt _) (fun _ => .whileLoop)
            (t :: opening :: (w ++ [closing])) [] (by simp) ?_
          intro u hu
          rcases List.mem_append.mp hu with hu | hu
          · simp [hcondition.token_mem hu]
          · exact .inl hu
  | @ifThen t opening closing _ _ w v _ _ hcondition _ _ ih =>
      cases hd with
      | ifThen hd =>
          refine (ih hd scopes).extend (q := .stmt _) (fun _ => .ifThen)
            (t :: opening :: (w ++ [closing])) [] (by simp) ?_
          intro u hu
          rcases List.mem_append.mp hu with hu | hu
          · simp [hcondition.token_mem hu]
          · exact .inl hu
  | @ifThenElse t opening closing other _ _ _ w v x _ _ hcondition _ hthen _ _ helse ihthen
      ihelse =>
      cases hd with
      | thenBranch hd =>
          refine (ihthen hd scopes).extend (q := .stmt _) (fun _ => .thenBranch)
            (t :: opening :: (w ++ [closing])) (other :: x) (by simp) ?_
          intro u hu
          rcases List.mem_append.mp hu with hu | hu
          · simp [hcondition.token_mem hu]
          · rcases List.mem_append.mp hu with hu | hu
            · exact .inl hu
            · simp [helse.token_mem hu]
      | elseBranch hd =>
          refine (ihelse hd scopes).extend (q := .stmt _) (fun _ => .elseBranch)
            (t :: opening :: (w ++ closing :: (v ++ [other]))) [] (by simp) ?_
          intro u hu
          rcases List.mem_append.mp hu with hu | hu
          · simp [hcondition.token_mem hu]
          · rcases List.mem_append.mp hu with hu | hu
            · simp [hthen.token_mem hu]
            · exact .inl hu
  | @block opening closing _ w _ _ _ ih =>
      cases hd with
      | block hs hd =>
          refine (ih ⟨_, hs, hd⟩ (t.within scopes (Stmt.blockScopeName opening))).extend
            ?_ [opening] [closing] (by simp) fun u hu => .inl hu
          rintro d ⟨s, hs, hd⟩
          exact .block hs hd
  | @cons st sts w v hs hss ihs ihss =>
      obtain ⟨s, hmem, hd⟩ := hd
      rcases List.mem_cons.mp hmem with rfl | hmem
      · refine (ihs hd scopes).extend (q := .stmts _) (fun _ hd => ⟨s, by simp, hd⟩) [] v
          (by simp) ?_
        intro u hu
        rcases List.mem_append.mp hu with hu | hu
        · exact .inl hu
        · exact .inr (.inr (hss.token_mem hu))
      · refine (ihss ⟨s, hmem, hd⟩ scopes).extend ?_ w [] (by simp) ?_
        · rintro d ⟨s, hs, hd⟩
          exact ⟨s, List.mem_cons_of_mem _ hs, hd⟩
        · intro u hu
          rcases List.mem_append.mp hu with hu | hu
          · exact .inr (.inl (hs.token_mem hu))
          · exact .inl hu

/-! ## Programs -/

/-- The definition declares the variable, as a statement inside of it or itself. -/
def Global.DeclaresVariable (name : Token) : Global → Prop
  | function f => ∃ s ∈ f.body, s.Declares name
  | var v => v.name = name

/-- The tokens spell the declaration of a variable in the definition: a whole statement
of the function, or the definition itself. -/
inductive Global.Declaration (name : Token) : Global → List Token → Prop
  | inside {f : FnDef} {s : Stmt} {type : TypeName} {initializer? : Option Expr} {v : List Token} :
      s ∈ f.body → s.Holds (.varDecl type name initializer? none) →
      Stmt.SpelledBy Expr.SpelledBy (.varDecl type name initializer? none) v →
      Declaration name (.function f) v
  | var {x : GlobalVar} {v : List Token} : x.name = name → x.SpelledBy v →
      Declaration name (.var x) v

theorem Global.SpelledBy.token_mem {g : Global} (h : g.SpelledBy Expr.SpelledBy w)
    (hu : u ∈ g.uses t) : u.ident.token ∈ w := by
  cases h with
  | var => cases hu
  | function hf =>
      cases hf with
      | intro _ _ _ _ _ hbody => simp [StmtPhrase.SpelledBy.token_mem hbody.stmt hu]

theorem Global.SpelledBy.exists_setOff {g : Global} (h : g.SpelledBy Expr.SpelledBy w)
    (hd : g.DeclaresVariable name) :
    ∃ v, g.Declaration name v ∧ SetOff name (g.uses t) v w := by
  cases h with
  | var hv => exact ⟨w, .var hd hv, [], [], (List.append_nil _).symm, fun u hu => by cases hu⟩
  | function hf =>
      cases hf with
      | @intro _ fname openParen closeParen openBrace _ body x y z _ _ _ _ _ hbody =>
          obtain ⟨s, hs, hd⟩ := hd
          obtain ⟨type, initializer?, v, hholds, hv, hoff⟩ :=
            StmtPhrase.SpelledBy.declaresApart (t := t) hbody.stmt (.block hs hd)
              (t.within [.global] fname.text)
          cases hholds with
          | block hmem hholds =>
              refine ⟨v, .inside hmem hholds hv, ?_⟩
              exact hoff.extend (x ++ fname :: openParen :: (y ++ [closeParen])) [] (by simp)
                fun u hu => .inl hu

theorem Repeated.exists_setOff {gs : List Global}
    (h : Repeated (Global.SpelledBy Expr.SpelledBy) gs w)
    (hd : ∃ g ∈ gs, g.DeclaresVariable name) :
    ∃ g ∈ gs, ∃ v, g.Declaration name v ∧ SetOff name (gs.flatMap (Global.uses t)) v w := by
  induction h with
  | nil =>
      obtain ⟨g, hg, -⟩ := hd
      cases hg
  | @cons g gs w v hg hgs ih =>
      have hrest : ∀ u ∈ gs.flatMap (Global.uses t), u.ident.token ∈ v := by
        intro u hu
        obtain ⟨g', hg', hu⟩ := List.mem_flatMap.mp hu
        obtain ⟨x, hx, hsub⟩ := Repeated.exists_of_mem hgs hg'
        exact hsub (hx.token_mem hu)
      obtain ⟨g', hmem, hd⟩ := hd
      rcases List.mem_cons.mp hmem with rfl | hmem
      · obtain ⟨x, hx, hoff⟩ := hg.exists_setOff (t := t) hd
        refine ⟨g', by simp, x, hx, hoff.extend [] v (by simp) fun u hu => ?_⟩
        rcases List.mem_append.mp hu with hu | hu
        · exact .inl hu
        · exact .inr (.inr (hrest u hu))
      · obtain ⟨g', hmem, x, hx, hoff⟩ := ih ⟨g', hmem, hd⟩
        refine ⟨g', List.mem_cons_of_mem _ hmem, x, hx, hoff.extend w [] (by simp) fun u hu => ?_⟩
        rcases List.mem_append.mp hu with hu | hu
        · exact .inr (.inl (hg.token_mem hu))
        · exact .inl hu

end ScriptFront
