import ScriptFront.Proofs.Expr.Parallel
import ScriptFront.Proofs.Stmt.Productions

/-!
# Statements side by side

The statement parser reads alike statements from related tokens, whatever their form.
-/
namespace ScriptFront

variable {α β : Type} {R : Token → Token → Prop} {S : α → β → Prop}

/-- The statements of blocks and their opening braces. -/
def BlockAlike (R : Token → Token → Prop) (b b' : List Stmt × Token) : Prop :=
  List.Forall₂ (Stmt.Alike R) b.1 b'.1 ∧ R b.2 b'.2

namespace Parser.Parallel

variable (hR : Token.Pairing R)
include hR

theorem typeName : Parallel R (TypeName.Alike R) Parser.typeName Parser.typeName := by
  rw [typeName_eq]
  refine (accept hR _).bind fun t t' ht => production.bind ?_
  rintro production _ rfl
  have hbrackets := ((accept hR .openBracket).seq (accept hR .closeBracket)).attempt production
  refine hbrackets.optional.bind_pure fun a? b? hab => ⟨ht, ?_, rfl⟩
  cases hab <;> rfl

theorem ident : Parallel R (Ident.Alike R) Parser.ident Parser.ident :=
  (accept hR _).bind_pure fun _ _ ht => ⟨ht, rfl, rfl⟩

theorem listed {p : Parser α} {q : Parser β} (h : Parallel R S p q) (production : String) :
    Parallel R (List.Forall₂ S) (Parser.listed production p) (Parser.listed production q) := by
  have hnext : Parallel R S (nextItem production p) (nextItem production q) :=
    ((accept hR _).seq h).attempt _
  have hitems : Parallel R (List.Forall₂ S) (separated production p) (separated production q) :=
    (h.bind fun _ _ hab => hnext.many.bind_pure fun _ _ hrest => .cons hab hrest).attempt _
  refine hitems.optional.bind_pure fun a? b? hab => ?_
  cases hab with
  | none => exact .nil
  | some hab => exact hab

theorem initializer : ReadsAlike R Parser.initializer Parser.initializer :=
  ((accept hR _).seq (expression? hR)).attempt _

variable {statement statement' : Parser Stmt} (h : Parallel R (Stmt.Alike R) statement statement')
include h

theorem blockOf :
    Parallel R (BlockAlike R) (Parser.blockOf statement) (Parser.blockOf statement') :=
  ((accept hR _).bind fun _ _ ht => h.many.bind fun _ _ hss =>
    (accept hR _).seq (.pure ⟨hss, ht⟩)).attempt _

theorem elseBranch? :
    Parallel R (Option.Rel (Stmt.Alike R)) (Parser.elseBranch? statement)
      (Parser.elseBranch? statement') := by
  refine (currentKind hR).bind ?_
  rintro kind _ rfl
  split_ifs
  · have hbranch := ((accept hR .elseWord).seq (committed hR h)).attempt "if-else statement"
    exact (committed hR hbranch).bind_pure fun _ _ hs => .some hs
  · exact .pure .none

theorem ifStatement :
    Parallel R (Stmt.Alike R) (Parser.ifStatement statement) (Parser.ifStatement statement') := by
  refine ((accept hR _).bind fun _ _ ht => (accept hR _).seq (committed hR ?_)).attempt _
  refine (expression? hR).bind fun _ _ hc => (accept hR _).seq (h.bind fun _ _ hs => ?_)
  refine (elseBranch? hR h).bind fun other? other?' hother => ?_
  cases hother with
  | none => exact .pure (.ifThen hc hs ht)
  | some hother => exact .pure (.ifThenElse hc hs hother ht)

theorem statementOf (form : StmtForm) :
    Parallel R (Stmt.Alike R) (Parser.statementOf statement form)
      (Parser.statementOf statement' form) := by
  cases form with
  | whileLoop =>
      refine ((accept hR _).bind fun _ _ ht => committed hR ((accept hR _).seq ?_)).attempt _
      exact (expression? hR).bind fun _ _ hc => (accept hR _).seq
        (h.bind_pure fun _ _ hs => .whileLoop hc hs ht)
  | call =>
      refine ((ident hR).bind fun _ _ hi => (accept hR _).bind fun _ _ ht => ?_).attempt _
      rw [argumentList_eq]
      exact (listed hR (expression? hR) _).bind fun _ _ hargs => (accept hR _).seq
        ((accept hR _).seq (.pure (.call hi hargs ht)))
  | breakLoop =>
      exact ((accept hR _).bind fun _ _ ht => (accept hR _).seq (.pure (.breakLoop ht))).attempt _
  | emptyReturn =>
      exact ((accept hR _).bind fun _ _ ht =>
        (accept hR _).seq (.pure (.returnValue .none ht))).attempt _
  | valueReturn =>
      exact ((accept hR _).bind fun _ _ ht => (expression? hR).bind fun _ _ he =>
        (accept hR _).seq (.pure (.returnValue (.some he) ht))).attempt _
  | varDecl =>
      exact ((typeName hR).bind fun _ _ hx => (accept hR _).bind fun _ _ ht =>
        (initializer hR).optional.bind fun _ _ he =>
          (accept hR _).seq (.pure (.varDecl hx ht he))).attempt _
  | assign =>
      exact ((ident hR).bind fun _ _ hi => (accept hR _).seq
        ((expression? hR).bind fun _ _ he => (accept hR _).seq (.pure (.assign hi he)))).attempt _
  | ifThen =>
      rw [statementOf_ifThen_eq, statementOf_ifThen_eq]
      refine (currentKind hR).bind ?_
      rintro kind _ rfl
      split_ifs
      · exact ifStatement hR h
      · exact .noMatch
  | block => exact (blockOf hR h).bind_pure fun _ _ hb => .block hb.1 hb.2
  | empty => exact ((accept hR _).bind_pure fun _ _ ht => .empty ht).attempt _

omit h in
theorem statementWithin (n : ℕ) :
    Parallel R (Stmt.Alike R) (Parser.statementWithin n) (Parser.statementWithin n) := by
  induction n with
  | zero => exact stop hR
  | succ n ih =>
      refine grammar.bind ?_
      rintro g _ rfl
      refine firstOf ?_
      rw [List.forall₂_map_left_iff, List.forall₂_map_right_iff, List.forall₂_same]
      exact fun form _ => statementOf hR ih form

omit h in
theorem block : Parallel R (BlockAlike R) Parser.block Parser.block :=
  blockOf hR (bounded fun n => statementWithin hR n)

end Parser.Parallel

end ScriptFront
