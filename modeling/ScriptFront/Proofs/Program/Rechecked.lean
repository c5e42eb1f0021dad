import ScriptFront.Proofs.Program.Parts
import ScriptFront.Proofs.Typing.Rechecked

/-!
# Checking a program again

A program that was checked is left as it is when it is checked again, and the same is
reported. Blocks and functions find their scopes by what the parser has left in the
tree, and what a statement requires is read from the symbol table. So it only
matters that the expressions of a statement are bound and typed as before.
-/
namespace ScriptFront

variable {types : TypeTable} {t : SymbolTable} {scope : ScopeId}

namespace Checking

/-! ## Parts of statements -/

@[simp] theorem condition_tree (statement : String) (token : Token) (e : Expr) :
    (condition types t statement token e).value = (e.infer types t none).value.1 := by
  unfold condition
  rw [Reported.value_bind]
  dsimp only
  split
  · rfl
  · split_ifs <;> rfl

/-- A condition that was typed is compared with what is required as before. -/
@[simp] theorem condition_again (statement : String) (token : Token) (e : Expr) :
    condition types t statement token (e.infer types t none).value.1 =
      condition types t statement token e := by
  unfold condition
  rw [e.infer_infer]

theorem returned_some_tree (token : Token) (e : Expr) :
    (returned types t scope token (some e)).value =
      if (returnType? t scope).isSome then some (e.infer types t none).value.1 else some e := by
  unfold returned
  cases returnType? t scope with
  | none => rfl
  | some expected =>
      rw [Option.isSome_some, if_pos rfl, Reported.value_bind]
      dsimp only
      split
      · rfl
      · split_ifs <;> rfl

theorem returned_none_tree (token : Token) :
    (returned types t scope token none).value = none := by
  unfold returned
  cases returnType? t scope with
  | none => rfl
  | some expected =>
      dsimp only
      split_ifs <;> rfl

theorem returned_again (token : Token) (e : Expr) :
    returned types t scope token (some (e.infer types t none).value.1) =
      if (returnType? t scope).isSome then returned types t scope token (some e)
      else pure (some (e.infer types t none).value.1) := by
  unfold returned
  cases returnType? t scope with
  | none => rfl
  | some expected => simp

end Checking

/-! ## Statements -/

namespace Stmt

theorem checkAll_checkAll (scope : ScopeId) {ss : List Stmt}
    (h : ∀ s ∈ ss, ∀ scope, (s.check types t scope).value.check types t scope =
      s.check types t scope) :
    check.checkAll types t scope (check.checkAll types t scope ss).value =
      check.checkAll types t scope ss := by
  induction ss with
  | nil => rfl
  | cons s ss ih =>
      have hs := h s (by simp)
      have hss := ih fun s hs => h s (by simp [hs])
      apply Reported.ext <;> simp [check.checkAll, hs, hss]

/-- A statement that was checked is left as it is, and the same is reported. -/
theorem check_check (s : Stmt) :
    (s.check types t scope).value.check types t scope = s.check types t scope := by
  induction s using tree_induction generalizing scope with
  | empty | breakLoop => rfl
  | whileLoop condition body token ih =>
      apply Reported.ext <;> simp [check, ih]
  | ifThen condition thenBranch token ih => apply Reported.ext <;> simp [check, ih]
  | ifThenElse condition thenBranch elseBranch token iht ihe =>
      apply Reported.ext <;> simp [check, iht, ihe]
  | block statements openBrace ih =>
      rw [check_block]
      cases hinner : t.subScope? scope (blockScopeName openBrace) with
      | none => simp [check_block, hinner, Checking.block]
      | some inner =>
          have hss := checkAll_checkAll inner ih
          apply Reported.ext <;> simp [check_block, hinner, Checking.block, hss]
  | assign target value => apply Reported.ext <;> simp [check]
  | returnValue value? token =>
      cases value? with
      | none => simp [check, check.bindOptional, Checking.returned_none_tree]
      | some e =>
          -- Where the result type is not known, the value is bound and not typed.
          cases hr : (Checking.returnType? t scope).isSome <;> apply Reported.ext <;>
            simp [check, check.bindOptional, Checking.returned_some_tree,
              Checking.returned_again, hr]
  | varDecl type name initializer? symbol? =>
      cases symbol? with
      | none => cases initializer? <;> rfl
      | some symbol =>
          cases initializer? with
          | none => rfl
          | some initializer =>
              cases hr : type.resolved? with
              | none => apply Reported.ext <;> simp [check, hr]
              | some expected => apply Reported.ext <;> simp [check, hr]
  | call callee args openParen => apply Reported.ext <;> simp [check]

end Stmt

/-! ## Programs -/

theorem Global.check_check (g : Global) :
    (g.check types t).value.check types t = g.check types t := by
  cases g with
  | var v => rfl
  | function f =>
      cases hscope : f.scope? t with
      | none => simp [check_function, hscope]
      | some scope =>
          cases hinner : t.subScope? scope (Stmt.blockScopeName f.openBrace) with
          | none => simp [check_function, hscope, hinner, Checking.block]
          | some inner =>
              have hbody : Stmt.check.checkAll types t inner
                  (Stmt.check.checkAll types t inner f.body).value =
                  Stmt.check.checkAll types t inner f.body :=
                Stmt.checkAll_checkAll inner fun s _ _ => s.check_check
              have hscope' (body : List Stmt) : ({ f with body } : FnDef).scope? t = some scope :=
                hscope
              apply Reported.ext <;>
                simp [check_function, hscope, hscope', hinner, Checking.block, hbody]

theorem Global.checkAll_checkAll (gs : List Global) :
    checkAll types t (checkAll types t gs).value = checkAll types t gs := by
  induction gs with
  | nil => rfl
  | cons g gs ih => apply Reported.ext <;> simp [checkAll, g.check_check, ih]

/-- Checking a program again leaves the tree as it is and reports the same, whatever was
declared. -/
theorem Program.check_idempotent (types : TypeTable) (t : SymbolTable) (p : Program) :
    (p.check types t).value.check types t = p.check types t := by
  apply Reported.ext <;> simp [check, Global.checkAll_checkAll]

end ScriptFront
