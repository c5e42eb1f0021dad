import ScriptFront.Program.Cleanup
import ScriptFront.Proofs.Grammar.Program
import ScriptFront.Proofs.Tree.Raw

/-!
# The names in a tree

All names that occur in a tree, whether they are used or declared there or name a type.
They are identifiers among the tokens of the tree, and no stage changes them.
-/
namespace ScriptFront

/-- The names in an expression. -/
def Expr.names : Expr → List Token
  | literal _ _ _ => []
  | ident i => [i.token]
  | unary _ operand _ _ => operand.names
  | binary _ left right _ _ => left.names ++ right.names
  | call callee args _ _ => callee.token :: namesAll args
where
  namesAll : List Expr → List Token
    | [] => []
    | e :: es => e.names ++ namesAll es

def Stmt.names : Stmt → List Token
  | empty _ | breakLoop _ => []
  | whileLoop condition body _ => condition.names ++ body.names
  | ifThen condition thenBranch _ => condition.names ++ thenBranch.names
  | ifThenElse condition thenBranch elseBranch _ =>
      condition.names ++ (thenBranch.names ++ elseBranch.names)
  | block statements _ => namesAll statements
  | assign target value => target.token :: value.names
  | returnValue value? _ => value?.toList.flatMap Expr.names
  | varDecl type name initializer? _ =>
      type.token :: name :: initializer?.toList.flatMap Expr.names
  | call callee args _ => callee.token :: Expr.names.namesAll args
where
  namesAll : List Stmt → List Token
    | [] => []
    | s :: ss => s.names ++ namesAll ss

def Param.names (p : Param) : List Token := [p.type.token, p.name]

def FnDef.names (f : FnDef) : List Token :=
  f.returnType.token :: f.name :: (f.params.flatMap Param.names ++ Stmt.names.namesAll f.body)

def Global.names : Global → List Token
  | function f => f.names
  | var v => [v.type.token, v.name]

def Program.names (p : Program) : List Token := p.globals.flatMap Global.names

variable {types : TypeTable} {t : SymbolTable} {scope : ScopeId} {n : Token}

theorem Expr.mem_namesAll {es : List Expr} : n ∈ names.namesAll es ↔ ∃ e ∈ es, n ∈ e.names := by
  induction es with
  | nil => simp [names.namesAll]
  | cons e es ih => simp [names.namesAll, ih]

theorem Stmt.mem_namesAll {ss : List Stmt} : n ∈ names.namesAll ss ↔ ∃ s ∈ ss, n ∈ s.names := by
  induction ss with
  | nil => simp [names.namesAll]
  | cons s ss ih => simp [names.namesAll, ih]

/-! ## No stage changes the names -/

theorem Expr.namesAll_raw {es : List Expr} (ih : ∀ e ∈ es, e.raw.names = e.names) :
    names.namesAll (raw.rawAll es) = names.namesAll es := by
  induction es with
  | nil => rfl
  | cons e es ihs =>
      exact congrArg₂ (· ++ ·) (ih e (by simp)) (ihs fun e he => ih e (by simp [he]))

theorem Expr.names_raw (e : Expr) : e.raw.names = e.names := by
  induction e using tree_induction with
  | literal | ident => rfl
  | unary op operand token type? ih => exact ih
  | binary op left right token type? ihl ihr => exact congrArg₂ (· ++ ·) ihl ihr
  | call callee args openParen type? ih =>
      exact congrArg (callee.token :: ·) (namesAll_raw ih)

theorem Expr.flatMap_names_raw (e? : Option Expr) :
    (e?.map raw).toList.flatMap names = e?.toList.flatMap names := by
  cases e? with
  | none => rfl
  | some e => exact congrArg (· ++ []) e.names_raw

theorem Stmt.namesAll_raw {ss : List Stmt} (ih : ∀ s ∈ ss, s.raw.names = s.names) :
    names.namesAll (raw.rawAll ss) = names.namesAll ss := by
  induction ss with
  | nil => rfl
  | cons s ss ihs =>
      exact congrArg₂ (· ++ ·) (ih s (by simp)) (ihs fun s hs => ih s (by simp [hs]))

theorem Stmt.names_raw (s : Stmt) : s.raw.names = s.names := by
  induction s using tree_induction with
  | empty | breakLoop => rfl
  | whileLoop condition body token ih | ifThen condition body token ih =>
      exact congrArg₂ (· ++ ·) condition.names_raw ih
  | ifThenElse condition thenBranch elseBranch token ihthen ihelse =>
      exact congrArg₂ (· ++ ·) condition.names_raw (congrArg₂ (· ++ ·) ihthen ihelse)
  | block statements openBrace ih => exact namesAll_raw ih
  | assign target value => exact congrArg (target.token :: ·) value.names_raw
  | returnValue value? token => exact Expr.flatMap_names_raw value?
  | varDecl type name initializer? symbol? =>
      exact congrArg (type.token :: name :: ·) (Expr.flatMap_names_raw initializer?)
  | call callee args openParen =>
      exact congrArg (callee.token :: ·) (Expr.namesAll_raw fun e _ => e.names_raw)

theorem Global.names_raw (g : Global) : g.raw.names = g.names := by
  cases g with
  | var v => rfl
  | function f =>
      have hparams : f.raw.params.flatMap Param.names = f.params.flatMap Param.names :=
        List.flatMap_map ..
      change f.returnType.token :: f.name :: (f.raw.params.flatMap Param.names ++
        Stmt.names.namesAll (Stmt.raw.rawAll f.body)) = f.names
      rw [hparams, Stmt.namesAll_raw fun s _ => s.names_raw]
      rfl

theorem Program.names_raw (p : Program) : p.raw.names = p.names := by
  unfold names raw
  rw [List.flatMap_map, funext Global.names_raw]

theorem Expr.names_bindNames (e : Expr) : (e.bindNames t scope).value.names = e.names := by
  rw [← names_raw, raw_bindNames, names_raw]

theorem Program.names_declare (p : Program) :
    (p.declare types).Ends t fun p' _ => p'.names = p.names :=
  p.raw_declare.mono fun p' _ h => by rw [← p'.names_raw, h, p.names_raw]

theorem Stmt.names_of_isEmpty {s : Stmt} (h : s.isEmpty) : s.names = [] := by
  cases s with
  | empty => rfl
  | block statements openBrace =>
      obtain rfl := List.isEmpty_iff.mp h
      rfl
  | breakLoop | whileLoop | ifThen | ifThenElse | assign | returnValue | varDecl | call => cases h

theorem Stmt.namesAll_cleanupList {ss : List Stmt}
    (ih : ∀ s ∈ ss, s.cleanup.value.names = s.names) :
    names.namesAll (cleanup.cleanupList ss).value = names.namesAll ss := by
  induction ss with
  | nil => rfl
  | cons s ss ihs =>
      have hrest := ihs fun s hs => ih s (by simp [hs])
      unfold cleanup.cleanupList consUnlessEmpty
      split_ifs with hempty
      · rw [names.namesAll, ← ih s (by simp), names_of_isEmpty hempty, List.nil_append]
        exact hrest
      · rw [names.namesAll, names.namesAll, ih s (by simp), hrest]

theorem Stmt.names_cleanup (s : Stmt) : s.cleanup.value.names = s.names := by
  induction s using tree_induction with
  | empty | breakLoop | assign | returnValue | varDecl | call => rfl
  | whileLoop condition body token ih => exact congrArg (condition.names ++ ·) ih
  | ifThen condition thenBranch token ih => exact congrArg (condition.names ++ ·) ih
  | ifThenElse condition thenBranch elseBranch token ihthen ihelse =>
      exact congrArg (condition.names ++ ·) (congrArg₂ (· ++ ·) ihthen ihelse)
  | block statements openBrace ih => exact namesAll_cleanupList ih

theorem Program.names_cleanup (p : Program) : p.cleanup.value.names = p.names := by
  change (Global.cleanupAll p.globals).value.flatMap Global.names = _
  unfold names
  induction p.globals with
  | nil => rfl
  | cons g gs ih =>
      refine congrArg₂ (· ++ ·) ?_ ih
      cases g with
      | var v => rfl
      | function f =>
          have hbody : Stmt.names.namesAll (Stmt.cleanup.cleanupList f.body).value =
              Stmt.names.namesAll f.body :=
            Stmt.namesAll_cleanupList fun s _ => s.names_cleanup
          change FnDef.names { f with body := (Stmt.cleanup.cleanupList f.body).value } = f.names
          unfold FnDef.names
          rw [hbody]

/-! ## Names are identifiers among the tokens -/

def ExprPhrase.names : ExprPhrase → List Token
  | expr _ e => e.names
  | arguments es => Expr.names.namesAll es

def StmtPhrase.names : StmtPhrase → List Token
  | stmt s => s.names
  | stmts ss => Stmt.names.namesAll ss

variable {w : List Token}

theorem ExprPhrase.SpelledBy.isNameIn {p : ExprPhrase} (h : p.SpelledBy w) (hn : n ∈ p.names) :
    n.IsNameIn w := by
  induction h with
  | literal => cases hn
  | name hk =>
      obtain rfl := List.mem_singleton.mp hn
      exact ⟨List.mem_singleton.mpr rfl, hk⟩
  | group _ _ _ ih => exact (ih hn).mono fun t ht => by simp [ht]
  | plus _ _ ih | neg _ _ ih | not _ _ ih => exact (ih hn).mono fun t ht => by simp [ht]
  | subscript _ _ _ _ iha ihi =>
      rcases List.mem_append.mp hn with hn | hn
      · exact (iha hn).mono fun t ht => by simp [ht]
      · exact (ihi hn).mono fun t ht => by simp [ht]
  | member _ _ hk ih =>
      rcases List.mem_append.mp hn with hn | hn
      · exact (ih hn).mono fun t ht => by simp [ht]
      · obtain rfl := List.mem_singleton.mp hn
        exact ⟨by simp, hk⟩
  | callEmpty _ _ _ ih => exact (ih hn).mono fun t ht => by simp [ht]
  | call _ _ _ _ ihc iha =>
      rcases List.mem_cons.mp hn with rfl | hn
      · exact (ihc (List.mem_singleton.mpr rfl)).mono fun t ht => by simp [ht]
      · exact (iha hn).mono fun t ht => by simp [ht]
  | binary _ _ _ iha ihb =>
      rcases List.mem_append.mp hn with hn | hn
      · exact (iha hn).mono fun t ht => by simp [ht]
      · exact (ihb hn).mono fun t ht => by simp [ht]
  | tighter _ _ ih => exact ih hn
  | argument _ ih => exact ih (by simpa [ExprPhrase.names, Expr.names.namesAll] using hn)
  | arguments _ _ _ ihe ihes =>
      rcases List.mem_append.mp hn with hn | hn
      · exact (ihe hn).mono fun t ht => by simp [ht]
      · exact (ihes hn).mono fun t ht => by simp [ht]

theorem TypeName.SpelledBy.isNameIn {type : TypeName} (h : type.SpelledBy w) :
    type.token.IsNameIn w := by
  cases h with
  | plain hk => exact ⟨by simp, hk⟩
  | array hk => exact ⟨by simp, hk⟩

theorem StmtPhrase.SpelledBy.isNameIn {p : StmtPhrase} (h : p.SpelledBy Expr.SpelledBy w)
    (hn : n ∈ p.names) : n.IsNameIn w := by
  induction h with
  | breakLoop | empty | nil => cases hn
  | whileLoop _ _ hcondition _ _ ih | ifThen _ _ hcondition _ _ ih =>
      rcases List.mem_append.mp hn with hn | hn
      · exact (ExprPhrase.SpelledBy.isNameIn hcondition hn).mono fun t ht => by simp [ht]
      · exact (ih hn).mono fun t ht => by simp [ht]
  | ifThenElse _ _ hcondition _ _ _ _ _ ihthen ihelse =>
      rcases List.mem_append.mp hn with hn | hn
      · exact (ExprPhrase.SpelledBy.isNameIn hcondition hn).mono fun t ht => by simp [ht]
      · rcases List.mem_append.mp hn with hn | hn
        · exact (ihthen hn).mono fun t ht => by simp [ht]
        · exact (ihelse hn).mono fun t ht => by simp [ht]
  | call hk _ hargs =>
      rcases List.mem_cons.mp hn with rfl | hn
      · exact ⟨by simp, hk⟩
      · obtain ⟨e, he, hn⟩ := Expr.mem_namesAll.mp hn
        obtain ⟨v, hv, hsub⟩ := hargs.exists_of_mem he
        refine (ExprPhrase.SpelledBy.isNameIn hv hn).mono fun t ht => ?_
        simp [hsub ht]
  | returnValue _ hvalue =>
      cases hvalue with
      | none => cases hn
      | @some value v hv =>
          have hvalue : n ∈ value.names := by simpa [StmtPhrase.names, Stmt.names] using hn
          exact (ExprPhrase.SpelledBy.isNameIn hv hvalue).mono fun t ht => by simp [ht]
  | varDecl htype hk hinitializer =>
      rcases List.mem_cons.mp hn with rfl | hn
      · exact htype.isNameIn.mono fun t ht => by simp [ht]
      rcases List.mem_cons.mp hn with rfl | hn
      · exact ⟨by simp, hk⟩
      cases hinitializer with
      | none => cases hn
      | @some value v hv =>
          obtain ⟨sign, u, -, hu, rfl⟩ := hv
          have hvalue : n ∈ value.names := by simpa using hn
          exact (ExprPhrase.SpelledBy.isNameIn hu hvalue).mono fun t ht => by simp [ht]
  | assign hk _ hvalue =>
      rcases List.mem_cons.mp hn with rfl | hn
      · exact ⟨by simp, hk⟩
      · exact (ExprPhrase.SpelledBy.isNameIn hvalue hn).mono fun t ht => by simp [ht]
  | block _ _ _ ih => exact (ih hn).mono fun t ht => by simp [ht]
  | cons _ _ ihs ihss =>
      rcases List.mem_append.mp hn with hn | hn
      · exact (ihs hn).mono fun t ht => by simp [ht]
      · exact (ihss hn).mono fun t ht => by simp [ht]

theorem Param.SpelledBy.isNameIn {p : Param} (h : p.SpelledBy w) (hn : n ∈ p.names) :
    n.IsNameIn w := by
  cases h with
  | intro htype hk =>
      rcases List.mem_cons.mp hn with rfl | hn
      · exact htype.isNameIn.mono fun t ht => by simp [ht]
      · obtain rfl := List.mem_singleton.mp hn
        exact ⟨by simp, hk⟩

theorem Global.SpelledBy.isNameIn {g : Global} (h : g.SpelledBy Expr.SpelledBy w)
    (hn : n ∈ g.names) : n.IsNameIn w := by
  cases h with
  | var hv =>
      cases hv with
      | intro htype hk =>
          rcases List.mem_cons.mp hn with rfl | hn
          · exact htype.isNameIn.mono fun t ht => by simp [ht]
          · obtain rfl := List.mem_singleton.mp hn
            exact ⟨by simp, hk⟩
  | function hf =>
      cases hf with
      | intro htype hk _ hparams _ hbody =>
          rcases List.mem_cons.mp hn with rfl | hn
          · exact htype.isNameIn.mono fun t ht => by simp [ht]
          rcases List.mem_cons.mp hn with rfl | hn
          · exact ⟨by simp, hk⟩
          rcases List.mem_append.mp hn with hn | hn
          · obtain ⟨p, hp, hn⟩ := List.mem_flatMap.mp hn
            obtain ⟨v, hv, hsub⟩ := hparams.exists_of_mem hp
            refine (hv.isNameIn hn).mono fun t ht => ?_
            simp [hsub ht]
          · exact (StmtPhrase.SpelledBy.isNameIn hbody.stmt hn).mono fun t ht => by simp [ht]

theorem Program.SpelledBy.isNameIn {p : Program} (h : p.SpelledBy Expr.SpelledBy w)
    (hn : n ∈ p.names) : n.IsNameIn w := by
  obtain ⟨g, hg, hn⟩ := List.mem_flatMap.mp hn
  obtain ⟨v, hv, hsub⟩ := Repeated.exists_of_mem h hg
  exact (hv.isNameIn hn).mono hsub

end ScriptFront
