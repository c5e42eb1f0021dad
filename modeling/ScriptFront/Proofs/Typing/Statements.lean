import ScriptFront.Proofs.Typing.Declared
import ScriptFront.Proofs.Typing.Expressions

/-!
# Typing statements by the rules

The analysis of a statement that was declared is silent exactly if the statement
is well typed. It binds all names of a statement before it types anything, so that
the two halves of the analysis of an expression lie apart here.
-/
namespace ScriptFront

variable {types : TypeTable} {symbols : SymbolTable} {result : TypeId} {scope : ScopeId}

/-! ## Expressions in statements -/

/-- The literals of an expression have been typed and its names are bound. -/
abbrev Expr.bound (Γ : TypingContext) (e : Expr) : Reported Expr :=
  (e.typeLiterals Γ.types).bindNames Γ.symbols Γ.scope

/-- The second half of the analysis of an expression, and what a statement does with
the type that is found. -/
theorem Expr.bound_clean_iff {Γ : TypingContext} (h : Γ.symbols.Complete)
    (hl : Γ.types.HasLiterals) (e : Expr) {β : Type} {f : Typed Expr → Reported β}
    {Q : TypeId → Prop} (hf : ∀ x t, Typed.Is x t → ((f x).diagnostics = [] ↔ Q t)) :
    (e.bound Γ).diagnostics = [] ∧
      ((e.bound Γ).value.infer Γ.types Γ.symbols Γ.initializing? >>= f).diagnostics = [] ↔
      ∃ t, HasType Γ e t ∧ Q t := by
  have hdecides := e.analyzed_decides h hl
  rw [Reported.diagnostics_bind, List.append_eq_nil_iff, ← and_assoc, ← List.append_eq_nil_iff]
  change (e.analyzed Γ).diagnostics = [] ∧ (f (e.analyzed Γ).value).diagnostics = [] ↔ _
  constructor
  · rintro ⟨hclean, hrest⟩
    obtain ⟨t, hgiven, ht⟩ := hdecides.sound hclean
    exact ⟨t, ht, (hf _ t hgiven).mp hrest⟩
  · rintro ⟨t, ht, hQ⟩
    obtain ⟨hclean, hgiven⟩ := hdecides.complete t ht
    exact ⟨hclean, (hf _ t hgiven).mpr hQ⟩

/-- The expression can be a condition: it is of the type `bool`. -/
def Expr.IsCondition (types : TypeTable) (symbols : SymbolTable) (scope : ScopeId)
    (e : Expr) : Prop :=
  ∃ b, types.get? "bool" = some b ∧ HasType { types, symbols, scope } e b

namespace Checking

@[simp] theorem assignable_clean_iff {expected received : TypeId} {token : Token} :
    (assignable types (some expected) (some received) token).diagnostics = [] ↔
      expected = received := by
  unfold assignable
  dsimp only
  split_ifs with h
  · simp [h]
  · simp [not_not.mp h]

theorem assigned_clean_iff {Γ : TypingContext} (h : Γ.symbols.Complete) (hl : Γ.types.HasLiterals)
    (value : Expr) {expected? : Option TypeId} {t : TypeId} (ht : expected? = some t)
    (place : Token) {β : Type} (g : Expr → β) :
    (value.bound Γ).diagnostics = [] ∧
      ((value.bound Γ).value.infer Γ.types Γ.symbols Γ.initializing? >>= fun x => do
        assignable Γ.types expected? x.2 place
        return g x.1).diagnostics = [] ↔ HasType Γ value t := by
  subst ht
  rw [Expr.bound_clean_iff h hl value (Q := (t = ·))]
  · simp only [exists_eq_right']
  · rintro ⟨e, _⟩ u rfl
    simp

section
variable (h : symbols.Complete) (hl : types.HasLiterals)
include h hl

theorem condition_clean_iff (scope : ScopeId) (statement : String) (token : Token) (e : Expr) :
    (e.bound { types, symbols, scope }).diagnostics = [] ∧
      (condition types symbols statement token
        (e.bound { types, symbols, scope }).value).diagnostics = [] ↔
      e.IsCondition types symbols scope := by
  unfold condition Expr.IsCondition
  rw [Expr.bound_clean_iff (Γ := { types, symbols, scope }) h hl e
    (Q := fun t => types.get? "bool" = some t)]
  · simp only [and_comm]
  · rintro ⟨e', _⟩ t rfl
    dsimp only
    by_cases ht : types.isNamed "bool" t = true
    · rw [if_pos ht]
      exact iff_of_true rfl (TypeTable.isNamed_iff.mp ht)
    · rw [if_neg ht]
      exact iff_of_false (List.cons_ne_nil _ _) (mt TypeTable.isNamed_iff.mpr ht)

theorem returned_clean_iff (hreturns : symbols.Returns result scope) (token : Token) (e : Expr) :
    (e.bound { types, symbols, scope }).diagnostics = [] ∧
      (returned types symbols scope token
        (some (e.bound { types, symbols, scope }).value)).diagnostics = [] ↔
      HasType { types, symbols, scope } e result := by
  unfold returned
  rw [hreturns.returnType?_eq]
  dsimp only
  rw [Expr.bound_clean_iff (Γ := { types, symbols, scope }) h hl e (Q := fun t => t = result)]
  · simp only [exists_eq_right]
  · rintro ⟨e', _⟩ t rfl
    dsimp only
    by_cases ht : t = result
    · rw [if_pos ht]
      exact iff_of_true rfl ht
    · rw [if_neg ht]
      exact iff_of_false (List.cons_ne_nil _ _) ht

end

theorem nothing_returned_clean_iff (hreturns : symbols.Returns result scope) (token : Token) :
    (returned types symbols scope token none).diagnostics = [] ↔
      types.get? "void" = some result := by
  unfold returned
  rw [hreturns.returnType?_eq]
  dsimp only
  by_cases ht : types.isNamed "void" result = true
  · rw [if_pos ht]
    exact iff_of_true rfl (TypeTable.isNamed_iff.mp ht)
  · rw [if_neg ht]
    exact iff_of_false (List.cons_ne_nil _ _) (mt TypeTable.isNamed_iff.mpr ht)

end Checking

/-! ## Conditions -/

namespace Stmt

variable {condition : Expr} {body thenBranch elseBranch : Stmt} {token : Token}

theorem wellTyped_whileLoop_iff :
    (whileLoop condition body token).WellTyped types symbols result scope ↔
      condition.IsCondition types symbols scope ∧ body.WellTyped types symbols result scope := by
  constructor
  · intro hs
    cases hs with
    | whileLoop hb ht hbody => exact ⟨⟨_, hb, ht⟩, hbody⟩
  · rintro ⟨⟨b, hb, ht⟩, hbody⟩
    exact .whileLoop hb ht hbody

theorem wellTyped_ifThen_iff :
    (ifThen condition thenBranch token).WellTyped types symbols result scope ↔
      condition.IsCondition types symbols scope ∧
        thenBranch.WellTyped types symbols result scope := by
  constructor
  · intro hs
    cases hs with
    | ifThen hb ht hthen => exact ⟨⟨_, hb, ht⟩, hthen⟩
  · rintro ⟨⟨b, hb, ht⟩, hthen⟩
    exact .ifThen hb ht hthen

theorem wellTyped_ifThenElse_iff :
    (ifThenElse condition thenBranch elseBranch token).WellTyped types symbols result scope ↔
      condition.IsCondition types symbols scope ∧
        thenBranch.WellTyped types symbols result scope ∧
        elseBranch.WellTyped types symbols result scope := by
  constructor
  · intro hs
    cases hs with
    | ifThenElse hb ht hthen helse => exact ⟨⟨_, hb, ht⟩, hthen, helse⟩
  · rintro ⟨⟨b, hb, ht⟩, hthen, helse⟩
    exact .ifThenElse hb ht hthen helse

section
variable (h : symbols.Complete) (hl : types.HasLiterals)
include h hl

theorem check_whileLoop_clean_iff :
    ((whileLoop (condition.typeLiterals types) body token).check types symbols
      scope).diagnostics = [] ↔
      condition.IsCondition types symbols scope ∧
        (body.check types symbols scope).diagnostics = [] := by
  have hcondition := Checking.condition_clean_iff h hl scope "while" token condition
  rw [check]
  simp only [Reported.diagnostics_bind, Reported.diagnostics_pure, List.append_nil,
    List.append_eq_nil_iff]
  rw [and_left_comm, hcondition, and_comm]

theorem check_ifThen_clean_iff :
    ((ifThen (condition.typeLiterals types) thenBranch token).check types symbols
      scope).diagnostics = [] ↔
      condition.IsCondition types symbols scope ∧
        (thenBranch.check types symbols scope).diagnostics = [] := by
  have hcondition := Checking.condition_clean_iff h hl scope "if" token condition
  rw [check]
  simp only [Reported.diagnostics_bind, Reported.diagnostics_pure, List.append_nil,
    List.append_eq_nil_iff]
  rw [and_left_comm, hcondition, and_comm]

theorem check_ifThenElse_clean_iff :
    ((ifThenElse (condition.typeLiterals types) thenBranch elseBranch token).check types symbols
      scope).diagnostics = [] ↔
      condition.IsCondition types symbols scope ∧
        (thenBranch.check types symbols scope).diagnostics = [] ∧
        (elseBranch.check types symbols scope).diagnostics = [] := by
  have hcondition := Checking.condition_clean_iff h hl scope "if-else" token condition
  rw [check]
  simp only [Reported.diagnostics_bind, Reported.diagnostics_pure, List.append_nil,
    List.append_eq_nil_iff]
  rw [← hcondition]
  tauto

end

end Stmt

/-! ## Returns -/

section
variable (h : symbols.Complete) (hl : types.HasLiterals)

theorem Stmt.check_returnNothing_clean_iff (hreturns : symbols.Returns result scope)
    {token : Token} :
    ((Stmt.returnValue none token).check types symbols scope).diagnostics = [] ↔
      (Stmt.returnValue none token).WellTyped types symbols result scope := by
  have hclean : (Checking.returned types symbols scope token none).diagnostics = [] ↔ _ :=
    Checking.nothing_returned_clean_iff hreturns token
  unfold check
  simp only [check.bindOptional, Reported.diagnostics_bind, Reported.diagnostics_pure,
    Reported.value_pure, List.append_nil, List.nil_append]
  rw [hclean]
  constructor
  · exact .returnNothing
  · intro hs
    cases hs with
    | returnNothing hvoid => exact hvoid

include h hl in
theorem Stmt.check_returnValue_clean_iff (hreturns : symbols.Returns result scope)
    {value : Expr} {token : Token} :
    ((Stmt.returnValue (some (value.typeLiterals types)) token).check types symbols
      scope).diagnostics = [] ↔
      (Stmt.returnValue (some value) token).WellTyped types symbols result scope := by
  have hclean := Checking.returned_clean_iff h hl hreturns token value
  unfold check
  simp only [check.bindOptional, Reported.diagnostics_bind, Reported.diagnostics_pure,
    Reported.value_bind, Reported.value_pure, List.append_nil, List.append_eq_nil_iff]
  rw [hclean]
  constructor
  · exact .returnValue
  · intro hs
    cases hs with
    | returnValue ht => exact ht

end

/-! ## Statements -/

section
variable (h : symbols.Complete) (hl : types.HasLiterals)
include h hl

theorem Stmt.check_assign_clean_iff (target : Ident) (value : Expr) :
    ((Stmt.assign target (value.typeLiterals types)).check types symbols scope).diagnostics = [] ↔
      (Stmt.assign target value).WellTyped types symbols result scope := by
  have htarget := Expr.analyzed_ident_decides (Γ := { types, symbols, scope }) h target
  have hsplit : ((Stmt.assign target (value.typeLiterals types)).check types symbols
      scope).diagnostics = [] ↔
      ((Expr.ident target).analyzed { types, symbols, scope }).diagnostics = [] ∧
      (value.bound { types, symbols, scope }).diagnostics = [] ∧
      ((value.bound { types, symbols, scope }).value.infer types symbols none >>= fun x => do
        Checking.assignable types ((Expr.ident target).analyzed { types, symbols, scope }).value.2
          x.2 (target.bind symbols scope .value).value.token
        return Stmt.assign (target.bind symbols scope .value).value x.1).diagnostics = [] := by
    simp [check, Expr.analyzed, Expr.check, Expr.typeLiterals, Expr.bindNames, Expr.infer]
    tauto
  rw [hsplit]
  constructor
  · rintro ⟨hclean, hvalue⟩
    obtain ⟨t, hgiven, ht⟩ := htarget.sound hclean
    exact .assign ht ((Checking.assigned_clean_iff h hl value hgiven _ _).mp hvalue)
  · intro hs
    cases hs with
    | assign ht hu =>
        obtain ⟨hclean, hgiven⟩ := htarget.complete _ ht
        exact ⟨hclean, (Checking.assigned_clean_iff h hl value hgiven _ _).mpr hu⟩

theorem Stmt.check_initialization_clean_iff {type : TypeName} {name : Token}
    {initializer : Expr} {symbol? : Option SymbolId} {id : SymbolId} {t : TypeId}
    (htype : types.get? type.fullName = some t) (hid : symbols.local? scope name.text = some id) :
    ((Stmt.varDecl { type with resolved? := some t } name
      (some (initializer.typeLiterals types)) (some id)).check types symbols scope).diagnostics
        = [] ↔
      (Stmt.varDecl type name (some initializer) symbol?).WellTyped types symbols result
        scope := by
  have hinitial := Checking.assigned_clean_iff
    (Γ := { types, symbols, scope, initializing? := some id }) (t := t) h hl initializer rfl
    type.token fun e => Stmt.varDecl { type with resolved? := some t } name (some e) (some id)
  have hsplit : ((Stmt.varDecl { type with resolved? := some t } name
      (some (initializer.typeLiterals types)) (some id)).check types symbols scope).diagnostics
        = [] ↔
      HasType { types, symbols, scope, initializing? := some id } initializer t := by
    rw [← hinitial, ← List.append_eq_nil_iff]
    rfl
  rw [hsplit]
  constructor
  · exact .initialization hid htype
  · intro hs
    cases hs with
    | initialization hid' htype' hvalue =>
        obtain rfl := Option.some.inj (hid.symm.trans hid')
        obtain rfl := Option.some.inj (htype.symm.trans htype')
        exact hvalue

theorem Stmt.check_call_clean_iff (callee : Ident) (args : List Expr) (openParen : Token) :
    ((Stmt.call callee (Expr.typeLiterals.typeAll types args) openParen).check types symbols
      scope).diagnostics = [] ↔
      (Stmt.call callee args openParen).WellTyped types symbols result scope := by
  have hcall := Expr.analyzed_decides (Γ := { types, symbols, scope }) h hl
    (.call callee args openParen none)
  have heq : ((Stmt.call callee (Expr.typeLiterals.typeAll types args) openParen).check types
      symbols scope).diagnostics =
      ((Expr.call callee args openParen none).analyzed { types, symbols, scope }).diagnostics := by
    rw [Expr.analyzed_call]
    simp [check, Expr.analyzedAll]
  rw [heq, hcall.clean_iff]
  constructor
  · rintro ⟨t, ht⟩
    exact .call ht
  · intro hs
    cases hs with
    | call ht => exact ⟨_, ht⟩

omit h hl in
theorem Stmt.checkAll_clean_iff {ss ss' : List Stmt}
    (ih : ∀ s ∈ ss, ∀ {s'}, s.Declared types symbols result scope s' →
      ((s'.check types symbols scope).diagnostics = [] ↔ s.WellTyped types symbols result scope))
    (hs : Stmt.AllDeclared types symbols result scope ss ss') :
    (Stmt.check.checkAll types symbols scope ss').diagnostics = [] ↔
      ∀ s ∈ ss, s.WellTyped types symbols result scope := by
  induction ss generalizing ss' with
  | nil =>
      cases hs
      simp [check.checkAll]
  | cons s ss ihs =>
      cases hs with
      | cons hs hss =>
          unfold check.checkAll
          rw [Reported.diagnostics_bind, List.append_eq_nil_iff, ih s (by simp) hs,
            Reported.diagnostics_bind, Reported.diagnostics_pure, List.append_nil,
            ihs (fun s' hs' => ih s' (by simp [hs'])) hss, List.forall_mem_cons]

/-- The analysis of a statement that was declared reports nothing exactly if the
statement is well typed. -/
theorem Stmt.check_clean_iff {s s' : Stmt} (hreturns : symbols.Returns result scope)
    (hs : s.Declared types symbols result scope s') :
    (s'.check types symbols scope).diagnostics = [] ↔
      s.WellTyped types symbols result scope := by
  induction s using Stmt.tree_induction generalizing scope s' with
  | empty token =>
      cases hs
      exact iff_of_true rfl .empty
  | breakLoop token =>
      cases hs
      exact iff_of_true rfl .breakLoop
  | whileLoop condition body token ih =>
      cases hs with
      | whileLoop hbody =>
          rw [check_whileLoop_clean_iff h hl, wellTyped_whileLoop_iff, ih hreturns hbody]
  | ifThen condition thenBranch token ih =>
      cases hs with
      | ifThen hthen =>
          rw [check_ifThen_clean_iff h hl, wellTyped_ifThen_iff, ih hreturns hthen]
  | ifThenElse condition thenBranch elseBranch token ihthen ihelse =>
      cases hs with
      | ifThenElse hthen helse =>
          rw [check_ifThenElse_clean_iff h hl, wellTyped_ifThenElse_iff, ihthen hreturns hthen,
            ihelse hreturns helse]
  | block statements openBrace ih =>
      cases hs with
      | block hinner hinside hall =>
          unfold check
          simp only [hinner, Reported.diagnostics_bind, Reported.diagnostics_pure,
            List.append_nil]
          rw [checkAll_clean_iff (fun s hs _ => ih s hs hinside) hall]
          constructor
          · exact .block hinner
          · intro hs
            cases hs with
            | block hinner' hall' =>
                obtain rfl := Option.some.inj (hinner.symm.trans hinner')
                exact hall'
  | assign target value =>
      cases hs
      exact check_assign_clean_iff h hl target value
  | returnValue value? token =>
      cases hs
      cases value? with
      | none => exact check_returnNothing_clean_iff hreturns
      | some value => exact check_returnValue_clean_iff h hl hreturns
  | varDecl type name initializer? symbol? =>
      cases hs with
      | varDecl htype hid =>
          cases initializer? with
          | none => exact iff_of_true rfl .declaration
          | some initializer => exact check_initialization_clean_iff h hl htype hid
  | call callee args openParen =>
      cases hs
      exact check_call_clean_iff h hl callee args openParen

end

end ScriptFront
