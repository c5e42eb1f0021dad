import ScriptFront.Program.Checking
import ScriptFront.Proofs.Typing.Slots

/-!
# Checking an expression again

Checking writes into the tree that it reads: the symbols and types of names, and the
types of operators and calls. None of this has a part in a decision that is made
again. A name is looked up by its text, and what is written at an operator or a call
is not read by the analysis itself. So an expression that was checked is left as it
is when it is checked again, and the same is reported.
-/
namespace ScriptFront

variable {types : TypeTable} {t : SymbolTable} {scope : ScopeId} {initializing? : Option SymbolId}

/-! ## Names -/

@[simp] theorem Ident.bind_bind (preference : Preference) (i : Ident) :
    (i.bind t scope preference).value.bind t scope preference = i.bind t scope preference := by
  have hname : ∀ type? symbol?, ({ i with type?, symbol? } : Ident).name = i.name :=
    fun _ _ => rfl
  cases hl : t.lookup? i.name preference scope with
  | none => simp [bind, hl]
  | some id =>
      cases hs : t.symbol? id with
      | none => simp [bind, hl, hs]
      | some symbol =>
          by_cases ho : symbol.kind.isOrdered ∧ i.token.position < symbol.declaration.position
          · simp [bind, hl, hs, ho]
          · simp [bind, hl, hs, ho, hname]

theorem Ident.valueType_value_eq (i : Ident) :
    (i.valueType t initializing?).value = none ∨
      (i.valueType t initializing?).value = i.type? := by
  unfold valueType
  split
  · exact .inl rfl
  · split_ifs
    · exact .inl rfl
    · exact .inl rfl
    · exact .inr rfl

namespace Expr

@[simp] theorem infer_ident_tree (i : Ident) :
    ((ident i).infer types t initializing?).value.1 = ident i := by
  change ((ident i).record (i.valueType t initializing?).value).1 = ident i
  have hvalue : (i.valueType t initializing?).value = none ∨
      (i.valueType t initializing?).value = i.type? := i.valueType_value_eq
  obtain h | h := hvalue
  · rw [h]
    rfl
  · rw [h]
    obtain ⟨token, type?, symbol?⟩ := i
    cases type? <;> rfl

/-! ## Binding again -/

theorem bindAll_bindAll {es : List Expr}
    (h : ∀ e ∈ es, (e.bindNames t scope).value.bindNames t scope = e.bindNames t scope) :
    bindNames.bindAll t scope (bindNames.bindAll t scope es).value =
      bindNames.bindAll t scope es := by
  induction es with
  | nil => rfl
  | cons e es ih =>
      have he := h e (by simp)
      have hes := ih fun e he => h e (by simp [he])
      apply Reported.ext <;> simp [bindNames.bindAll, he, hes]

@[simp] theorem bindNames_bindNames (e : Expr) :
    (e.bindNames t scope).value.bindNames t scope = e.bindNames t scope := by
  induction e using tree_induction with
  | literal => rfl
  | ident i => apply Reported.ext <;> simp [bindNames]
  | unary op operand token type? ih => apply Reported.ext <;> simp [bindNames, ih]
  | binary op left right token type? ihl ihr =>
      by_cases hop : op = .memberAccess
      · apply Reported.ext <;> simp [bindNames, hop, ihl]
      · apply Reported.ext <;> simp [bindNames, hop, ihl, ihr]
  | call callee args openParen type? ih =>
      apply Reported.ext <;> simp [bindNames, bindAll_bindAll ih]

/-! ## Checking again -/

theorem record_tree (e : Expr) (found? : Option TypeId) :
    (e.record found?).1 = e.withType (found?.or e.type?) := by
  cases found? with
  | some type => rfl
  | none => cases e <;> rfl

/-- It makes no difference that the type was written there before. -/
theorem record_again (e : Expr) (found? : Option TypeId) :
    (e.withType (found?.or e.type?)).record found? = e.record found? := by
  cases found? with
  | some type => cases e <;> rfl
  | none => cases e <;> rfl

theorem bindAll_checked {es : List Expr}
    (h : ∀ e ∈ es,
      ((e.bindNames t scope).value.infer types t initializing?).value.1.bindNames t scope =
        ⟨((e.bindNames t scope).value.infer types t initializing?).value.1,
          (e.bindNames t scope).diagnostics⟩) :
    bindNames.bindAll t scope ((infer.inferAll types t initializing?
        (bindNames.bindAll t scope es).value).value.map Prod.fst) =
      ⟨(infer.inferAll types t initializing? (bindNames.bindAll t scope es).value).value.map
        Prod.fst, (bindNames.bindAll t scope es).diagnostics⟩ := by
  induction es with
  | nil => rfl
  | cons e es ih =>
      have he := h e (by simp)
      have hes := ih fun e he => h e (by simp [he])
      apply Reported.ext <;> simp [bindNames.bindAll, infer.inferAll, he, hes]

@[simp] theorem bindNames_checked (e : Expr) :
    ((e.bindNames t scope).value.infer types t initializing?).value.1.bindNames t scope =
      ⟨((e.bindNames t scope).value.infer types t initializing?).value.1,
        (e.bindNames t scope).diagnostics⟩ := by
  induction e using tree_induction with
  | literal => rfl
  | ident i => apply Reported.ext <;> simp [bindNames]
  | unary op operand token type? ih =>
      apply Reported.ext <;> simp [bindNames, infer, record_tree, withType, ih]
  | binary op left right token type? ihl ihr =>
      by_cases hop : op = .memberAccess
      · apply Reported.ext <;> simp [bindNames, infer, record_tree, withType, hop, ihl]
      · apply Reported.ext <;> simp [bindNames, infer, record_tree, withType, hop, ihl, ihr]
  | call callee args openParen type? ih =>
      have hargs := bindAll_checked ih
      apply Reported.ext <;> simp [bindNames, infer, record_tree, withType, hargs]

theorem inferAll_inferAll {es : List Expr}
    (h : ∀ e ∈ es, (e.infer types t initializing?).value.1.infer types t initializing? =
      e.infer types t initializing?) :
    infer.inferAll types t initializing?
        ((infer.inferAll types t initializing? es).value.map Prod.fst) =
      infer.inferAll types t initializing? es := by
  induction es with
  | nil => rfl
  | cons e es ih =>
      have he := h e (by simp)
      have hes := ih fun e he => h e (by simp [he])
      apply Reported.ext <;> simp [infer.inferAll, he, hes]

/-- An expression that was typed is typed as before. -/
@[simp] theorem infer_infer (e : Expr) :
    (e.infer types t initializing?).value.1.infer types t initializing? =
      e.infer types t initializing? := by
  induction e using tree_induction with
  | literal => rfl
  | ident i => rw [infer_ident_tree]
  | unary op operand token type? ih =>
      apply Reported.ext
      · simp only [infer, record_tree, withType, ih, Reported.value_bind, Reported.value_pure]
        exact record_again (unary op _ token type?) _
      · simp [infer, record_tree, withType, ih]
  | binary op left right token type? ihl ihr =>
      by_cases hop : op = .memberAccess
      · apply Reported.ext
        · simp only [infer, hop, if_true, record_tree, withType, ihl, Reported.value_bind,
            Reported.value_pure]
          exact record_again (binary .memberAccess _ right token type?) _
        · simp [infer, record_tree, withType, hop, ihl]
      · apply Reported.ext
        · simp only [infer, hop, if_false, record_tree, withType, ihl, ihr, Reported.value_bind,
            Reported.value_pure]
          exact record_again (binary op _ _ token type?) _
        · simp [infer, record_tree, withType, hop, ihl, ihr]
  | call callee args openParen type? ih =>
      have hargs := inferAll_inferAll ih
      apply Reported.ext
      · simp only [infer, record_tree, withType, hargs, Reported.value_bind, Reported.value_pure]
        exact record_again (call callee _ openParen type?) _
      · simp [infer, record_tree, withType, hargs]

@[simp] theorem bindAll_inferAll (es : List Expr) :
    bindNames.bindAll t scope ((infer.inferAll types t initializing?
        (bindNames.bindAll t scope es).value).value.map Prod.fst) =
      ⟨(infer.inferAll types t initializing? (bindNames.bindAll t scope es).value).value.map
        Prod.fst, (bindNames.bindAll t scope es).diagnostics⟩ :=
  bindAll_checked fun e _ => e.bindNames_checked

@[simp] theorem inferAll_again (es : List Expr) :
    infer.inferAll types t initializing?
        ((infer.inferAll types t initializing? es).value.map Prod.fst) =
      infer.inferAll types t initializing? es :=
  inferAll_inferAll fun e _ => e.infer_infer

end Expr
end ScriptFront
