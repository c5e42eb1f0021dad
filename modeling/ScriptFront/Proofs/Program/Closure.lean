import ScriptFront.Proofs.Parsing.Closure
import ScriptFront.Proofs.Stmt.Productions

/-!
# What the parser for programs inherits

A property that the combinators keep and that holds of the parser for expressions holds of
each production of statements and definitions, and of the parser for programs.
-/
namespace ScriptFront.Parser.Closed

variable {N : String → Prop} {P : {α : Type} → Parser α → Prop} {α : Type}
variable (h : Closed N P)
include h

theorem attempt_of_mem {p : Parser α} {name : String} (hname : name ∈ productions) (hp : P p) :
    P (p.attempt name) :=
  h.attempt (h.named name hname) hp

theorem typeName : P Parser.typeName := by
  have hbrackets : P brackets := h.bind (h.accept _) fun _ => h.accept _
  rw [typeName_eq]
  refine h.bind (h.accept _) fun _ => h.production_bind fun name hname => ?_
  exact h.bind_pure (h.optional (h.attempt hname hbrackets))

theorem listed {item : Parser α} {production : String} (hname : production ∈ productions)
    (hitem : P item) : P (Parser.listed production item) := by
  have hnext : P (nextItem production item) :=
    h.attempt_of_mem hname (h.bind (h.accept _) fun _ => hitem)
  have hseparated : P (separated production item) := by
    refine h.attempt_of_mem hname (h.bind hitem fun _ => ?_)
    exact h.bind_pure (h.many hnext)
  exact h.bind_pure (h.optional hseparated)

/-! ## Statements -/

section
variable {sub : Parser Stmt} (hexpr : P expression?) (hsub : P sub)

include hsub in
theorem blockOf : P (Parser.blockOf sub) := by
  refine h.attempt_of_mem (by decide) (h.bind (h.accept _) fun _ => ?_)
  refine h.bind (h.many hsub) fun _ => ?_
  exact h.bind_pure (h.accept _)

include hsub in
theorem elseBranch? : P (Parser.elseBranch? sub) := by
  have hother : P (otherBranch sub) :=
    h.attempt_of_mem (by decide) (h.bind (h.accept _) fun _ => h.committed hsub)
  rw [elseBranch?_eq]
  refine h.bind h.currentKind fun kind => ?_
  split_ifs
  · exact h.bind_pure (h.committed hother)
  · exact h.pure none

include hexpr hsub in
theorem ifStatement : P (Parser.ifStatement sub) := by
  refine h.attempt_of_mem (by decide) (h.bind (h.accept _) fun _ => ?_)
  refine h.bind (h.accept _) fun _ => h.committed ?_
  refine h.bind hexpr fun _ => h.bind (h.accept _) fun _ => ?_
  refine h.bind hsub fun _ => h.bind (h.elseBranch? hsub) fun other? => ?_
  cases other? with
  | none => exact h.pure _
  | some other => exact h.pure _

include hexpr hsub in
theorem statementOf (f : StmtForm) : P (Parser.statementOf sub f) := by
  cases f with
  | whileLoop =>
      refine h.attempt_of_mem (by decide) (h.bind (h.accept _) fun _ => h.committed ?_)
      refine h.bind (h.accept _) fun _ => h.bind hexpr fun _ => ?_
      exact h.bind (h.accept _) fun _ => h.bind_pure hsub
  | call =>
      refine h.attempt_of_mem (by decide) ?_
      rw [ident_bind]
      refine h.bind (h.accept _) fun _ => h.bind (h.accept _) fun _ => ?_
      refine h.bind (h.listed (by decide) hexpr) fun _ => ?_
      exact h.bind (h.accept _) fun _ => h.bind_pure (h.accept _)
  | breakLoop | emptyReturn =>
      refine h.attempt_of_mem (by decide) (h.bind (h.accept _) fun _ => ?_)
      exact h.bind_pure (h.accept _)
  | valueReturn =>
      refine h.attempt_of_mem (by decide) (h.bind (h.accept _) fun _ => ?_)
      exact h.bind hexpr fun _ => h.bind_pure (h.accept _)
  | varDecl =>
      have hinitializer : P initializer :=
        h.attempt_of_mem (by decide) (h.bind (h.accept _) fun _ => hexpr)
      refine h.attempt_of_mem (by decide) (h.bind h.typeName fun _ => ?_)
      refine h.bind (h.accept _) fun _ => h.bind (h.optional hinitializer) fun _ => ?_
      exact h.bind_pure (h.accept _)
  | assign =>
      refine h.attempt_of_mem (by decide) ?_
      rw [ident_bind]
      refine h.bind (h.accept _) fun _ => h.bind (h.accept _) fun _ => ?_
      exact h.bind hexpr fun _ => h.bind_pure (h.accept _)
  | ifThen =>
      rw [statementOf_ifThen_eq]
      refine h.bind h.currentKind fun kind => ?_
      split_ifs
      · exact h.ifStatement hexpr hsub
      · exact h.noMatch
  | block => exact h.bind_pure (h.blockOf hsub)
  | empty => exact h.attempt_of_mem (by decide) (h.bind_pure (h.accept _))

end

variable (hexpr : P expression?)
include hexpr

theorem statement : P Parser.statement := by
  refine h.bounded fun n => ?_
  induction n with
  | zero => exact h.stop
  | succ n ih =>
      refine h.bind h.grammar fun g => h.firstOf fun p hp => ?_
      obtain ⟨f, -, rfl⟩ := List.mem_map.mp hp
      exact h.statementOf hexpr ih f

/-! ## Definitions -/

theorem global : P Parser.global := by
  have hparam : P param := by
    refine h.attempt_of_mem (by decide) (h.bind h.typeName fun _ => ?_)
    exact h.bind_pure (h.accept _)
  have hfn : P fnDef := by
    refine h.attempt_of_mem (by decide) (h.bind h.typeName fun _ => ?_)
    refine h.bind (h.accept _) fun _ => h.bind (h.accept _) fun _ => ?_
    rw [paramList_eq]
    refine h.bind (h.listed (by decide) hparam) fun _ => h.bind (h.accept _) fun _ => ?_
    exact h.bind_pure (h.blockOf (h.statement hexpr))
  have hvar : P globalVar := by
    refine h.attempt_of_mem (by decide) (h.bind h.typeName fun _ => ?_)
    exact h.bind (h.accept _) fun _ => h.bind_pure (h.accept _)
  exact h.orElse (h.bind_pure hfn) (h.bind_pure hvar)

theorem program : P Parser.program := by
  refine h.bind (h.many (h.global hexpr)) fun _ => h.bind h.currentKind fun kind => ?_
  split_ifs
  · exact h.pure _
  · exact h.stop

end ScriptFront.Parser.Closed
