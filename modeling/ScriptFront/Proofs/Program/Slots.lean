import ScriptFront.Proofs.Program.Parts
import ScriptFront.Proofs.Typing.Slots

/-!
# The slots that statements fill

The second analysis binds and types each expression once, and compares what a statement
requires at a token of the statement. So all that it reports on a program fits into the slots
at the tokens of the program.
-/
namespace ScriptFront

namespace Fault

/-- The faults of a statement as a whole. -/
def statementNames : Multiset String :=
  {"ConditionTypeError", "TypeMatchError", "MissingReturnValue", "ReturnTypeMismatch"}

/-- The faults that the second analysis finds. -/
def checkingNames : Multiset String := bindingNames + typingNames + statementNames

end Fault

open Fault

open Token (slots slots_append slots_cons slots_mono slots_add_le slots_report_le
  slots_reporting_le)

variable {types : TypeTable} {t : SymbolTable} {scope : ScopeId} {ts : List Token}

theorem Token.slots_statement : slots ts statementNames ≤ slots ts checkingNames :=
  slots_mono (Multiset.le_add_left _ _)

theorem Expr.bindNames_infer_slots (initializing? : Option SymbolId) (e : Expr) :
    (e.bindNames t scope).slots +
        ((e.bindNames t scope).value.infer types t initializing?).slots ≤
      slots e.tokens checkingNames := by
  have htyped := @infer_slots types t initializing? (e.bindNames t scope).value
  rw [e.tokens_bindNames] at htyped
  exact (add_le_add e.bindNames_slots htyped).trans (slots_add_le (Multiset.le_add_right _ _))

namespace Checking

theorem condition_slots (statement : String) (token : Token) (e : Expr) :
    (e.bindNames t scope).slots +
        (condition types t statement token (e.bindNames t scope).value).slots ≤
      slots (token :: e.tokens) checkingNames := by
  have hcheck := @Expr.bindNames_infer_slots types t scope none e
  rw [condition, Reported.slots_bind, ← add_assoc, slots_cons, add_comm (slots [token] _)]
  refine add_le_add hcheck ?_
  generalize ((e.bindNames t scope).value.infer types t none).value = r
  obtain ⟨e, found?⟩ := r
  cases found? with
  | none => exact Multiset.zero_le _
  | some type =>
      dsimp only
      split_ifs
      · exact Multiset.zero_le _
      · exact slots_reporting_le "ConditionTypeError" rfl (by decide)

theorem assignable_slots (expected? received? : Option TypeId) (token : Token) :
    (assignable types expected? received? token).slots ≤ slots [token] statementNames := by
  unfold assignable
  split
  · split_ifs
    · exact slots_report_le "TypeMatchError" rfl (by decide)
    · exact Multiset.zero_le _
  · exact Multiset.zero_le _

theorem returned_slots (token : Token) (value? : Option Expr) :
    (Stmt.check.bindOptional t scope value?).slots +
        (returned types t scope token (Stmt.check.bindOptional t scope value?).value).slots ≤
      slots (token :: Expr.tokensOptional value?) checkingNames := by
  rw [slots_cons, add_comm (slots [token] _)]
  cases value? with
  | none =>
      refine le_trans ?_ (Multiset.le_add_left _ _)
      rw [Stmt.check.bindOptional, Reported.slots_pure, zero_add, Reported.value_pure]
      unfold returned
      split
      · exact Multiset.zero_le _
      · split_ifs
        · exact Multiset.zero_le _
        · exact slots_reporting_le "MissingReturnValue" rfl (by decide)
      · next h => cases h
  | some value =>
      have hcheck := @Expr.bindNames_infer_slots types t scope none value
      rw [Stmt.check.bindOptional, Reported.slots_bind, Reported.slots_pure, add_zero,
        Expr.tokensOptional_some]
      unfold returned
      split
      · rw [Reported.slots_pure]
        refine (add_le_add_right (Multiset.zero_le _) _).trans (hcheck.trans ?_)
        exact Multiset.le_add_right _ _
      · next h => cases h
      · next expected bound _ h =>
          obtain rfl : (value.bindNames t scope).value = bound := Option.some.inj h
          rw [Reported.slots_bind, ← add_assoc]
          refine add_le_add hcheck ?_
          generalize ((value.bindNames t scope).value.infer types t none).value = r
          obtain ⟨value, found?⟩ := r
          cases found? with
          | none => exact Multiset.zero_le _
          | some received =>
              dsimp only
              split_ifs
              · exact Multiset.zero_le _
              · exact slots_reporting_le "ReturnTypeMismatch" rfl (by decide)

end Checking

namespace Stmt

theorem check_assign_slots (target : Ident) (value : Expr) :
    ((assign target value).check types t scope).slots ≤
      slots (assign target value).tokens checkingNames := by
  have hvalue := @Expr.bindNames_infer_slots types t scope none value
  have htarget := @Ident.valueType_slots t none (target.bind t scope .value).value
  rw [target.token_bind] at htarget
  have hown : slots [target.token] bindingNames + slots [target.token] valueNames +
      slots [target.token] statementNames ≤ slots [target.token] checkingNames := by
    rw [← Token.slots_add]
    exact slots_add_le (by decide)
  rw [check, Reported.slots_bind, Reported.slots_bind, Reported.slots_bind,
    Reported.slots_bind, Reported.slots_bind, Reported.slots_pure, add_zero, tokens, slots_cons]
  calc _ ≤ slots [target.token] bindingNames + ((value.bindNames t scope).slots +
          (slots [target.token] valueNames +
            (((value.bindNames t scope).value.infer types t none).slots +
              slots [target.token] statementNames))) := by
        refine add_le_add (target.bind_slots .value) (add_le_add_right ?_ _)
        refine add_le_add htarget (add_le_add_right ?_ _)
        exact target.token_bind (t := t) .value ▸ Checking.assignable_slots _ _ _
    _ = slots [target.token] bindingNames + slots [target.token] valueNames +
          slots [target.token] statementNames + ((value.bindNames t scope).slots +
            ((value.bindNames t scope).value.infer types t none).slots) := by abel
    _ ≤ _ := add_le_add hown hvalue

theorem check_varDecl_slots (type : TypeName) (name : Token) (initializer? : Option Expr)
    (symbol? : Option SymbolId) :
    ((varDecl type name initializer? symbol?).check types t scope).slots ≤
      slots (varDecl type name initializer? symbol?).tokens checkingNames := by
  unfold check
  dsimp only
  split
  · next symbol initializer =>
      have hvalue := @Expr.bindNames_infer_slots types t scope (some symbol) initializer
      rw [Reported.slots_bind, tokens, Expr.tokensOptional_some, slots_cons type.token,
        slots_cons name]
      cases type.resolved? with
      | none =>
          rw [Reported.slots_pure, add_zero]
          refine ((Multiset.le_add_right _ _).trans hvalue).trans ?_
          exact (Multiset.le_add_left _ _).trans (Multiset.le_add_left _ _)
      | some expected =>
          dsimp only
          rw [Reported.slots_bind, Reported.slots_bind, Reported.slots_pure, add_zero,
            ← add_assoc, add_comm (slots [type.token] checkingNames)]
          refine add_le_add (hvalue.trans (Multiset.le_add_left _ _)) ?_
          exact (Checking.assignable_slots _ _ _).trans Token.slots_statement
  · exact Multiset.zero_le _

theorem check_call_slots (callee : Ident) (args : List Expr) (openParen : Token) :
    ((call callee args openParen).check types t scope).slots ≤
      slots (call callee args openParen).tokens checkingNames := by
  rw [check, Reported.slots_bind, Reported.slots_bind, Reported.slots_bind,
    Reported.slots_bind, Reported.slots_pure, add_zero, tokens, slots_cons callee.token,
    slots_cons openParen]
  have hfits : ∀ e ∈ (Expr.bindNames.bindAll t scope args).value, e.Fits types t none :=
    fun e _ => e.infer_fits
  have hargs := Expr.inferAll_slots hfits
  rw [Expr.tokensAll_bindAll] at hargs
  generalize Expr.infer.inferAll types t none _ = xs at hargs ⊢
  have hcall := @Typing.call_slots types t (callee.bind t scope .function).value xs.value
  rw [callee.token_bind] at hcall
  have hbound := Expr.bindAll_slots fun e (_ : e ∈ args) => @Expr.bindNames_slots t scope e
  calc _ ≤ slots [callee.token] bindingNames +
          (slots (Expr.tokens.tokensAll args) bindingNames +
            (xs.slots + (slots [callee.token] callNames +
              slots (Typing.argumentTokens xs.value) argumentNames))) :=
        add_le_add (callee.bind_slots .function) (add_le_add hbound (add_le_add_right hcall _))
    _ = slots [callee.token] bindingNames + slots [callee.token] callNames +
          (slots (Expr.tokens.tokensAll args) bindingNames + (xs.slots +
            slots (Typing.argumentTokens xs.value) argumentNames)) := by abel
    _ ≤ slots [callee.token] checkingNames +
          (slots [openParen] checkingNames +
            slots (Expr.tokens.tokensAll args) checkingNames) := by
        refine add_le_add (slots_add_le (by decide)) (le_trans ?_ (Multiset.le_add_left _ _))
        exact (add_le_add_right hargs _).trans (slots_add_le (Multiset.le_add_right _ _))

theorem checkAll_slots {ss : List Stmt}
    (h : ∀ s ∈ ss, (s.check types t scope).slots ≤ slots s.tokens checkingNames) :
    (check.checkAll types t scope ss).slots ≤ slots (tokens.tokensAll ss) checkingNames := by
  induction ss with
  | nil => exact Multiset.zero_le _
  | cons s ss ih =>
      rw [check.checkAll, Reported.slots_bind, Reported.slots_bind, Reported.slots_pure, add_zero,
        tokens.tokensAll, slots_append]
      exact add_le_add (h s (by simp)) (ih fun s hs => h s (by simp [hs]))

theorem check_slots (s : Stmt) : (s.check types t scope).slots ≤ slots s.tokens checkingNames := by
  induction s using tree_induction generalizing scope with
  | empty | breakLoop => exact Multiset.zero_le _
  | whileLoop condition body token ih | ifThen condition body token ih =>
      rw [check, Reported.slots_bind, Reported.slots_bind, Reported.slots_bind,
        Reported.slots_pure, add_zero, tokens, ← List.cons_append, slots_append,
        add_left_comm, add_comm (slots (token :: _) _)]
      exact add_le_add ih (Checking.condition_slots _ token condition)
  | ifThenElse condition thenBranch elseBranch token ihthen ihelse =>
      rw [check, Reported.slots_bind, Reported.slots_bind, Reported.slots_bind,
        Reported.slots_bind, Reported.slots_pure, add_zero, tokens, ← List.cons_append,
        slots_append, slots_append, ← add_assoc (thenBranch.check types t scope).slots,
        add_left_comm, add_comm (slots (token :: _) _)]
      exact add_le_add (add_le_add ihthen ihelse) (Checking.condition_slots _ token condition)
  | block statements openBrace ih =>
      rw [check_block, Reported.slots_bind, Reported.slots_pure, add_zero, tokens, slots_cons]
      refine le_trans ?_ (Multiset.le_add_left _ _)
      cases t.subScope? scope (blockScopeName openBrace) with
      | none => exact Multiset.zero_le _
      | some inner => exact checkAll_slots fun s hs => ih s hs
  | assign target value => exact check_assign_slots target value
  | returnValue value? token =>
      rw [check, Reported.slots_bind, Reported.slots_bind, Reported.slots_pure, add_zero, tokens]
      exact Checking.returned_slots token value?
  | varDecl type name initializer? symbol? =>
      exact check_varDecl_slots type name initializer? symbol?
  | call callee args openParen => exact check_call_slots callee args openParen

end Stmt

theorem Global.check_slots (g : Global) :
    (g.check types t).slots ≤ slots g.tokens checkingNames := by
  cases g with
  | var v => exact Multiset.zero_le _
  | function f =>
      have hbody : (Stmt.tokens.tokensAll f.body).Sublist (function f).tokens := by
        refine List.Sublist.cons _ (List.Sublist.cons _ (List.Sublist.cons _ ?_))
        exact (List.sublist_cons_self _ _).trans (List.sublist_append_right _ _)
      rw [check_function]
      split
      · exact Multiset.zero_le _
      · rw [Reported.slots_bind, Reported.slots_pure, add_zero]
        refine le_trans ?_ (Token.slots_le_of_sublist hbody)
        cases t.subScope? _ (Stmt.blockScopeName f.openBrace) with
        | none => exact Multiset.zero_le _
        | some inner => exact Stmt.checkAll_slots fun s _ => s.check_slots

/-- What the second analysis reports on a program fits into the slots at its tokens. -/
theorem Program.check_slots (p : Program) :
    (p.check types t).slots ≤ slots p.tokens checkingNames := by
  rw [check, Reported.slots_bind, Reported.slots_pure, add_zero, tokens]
  induction p.globals with
  | nil => exact Multiset.zero_le _
  | cons g gs ih =>
      rw [Global.checkAll, Reported.slots_bind, Reported.slots_bind, Reported.slots_pure,
        add_zero, List.flatMap_cons, slots_append]
      exact add_le_add g.check_slots ih

end ScriptFront
