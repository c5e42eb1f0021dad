import Mathlib.Tactic.Common
import ScriptFront.Proofs.Grammar.Sequences
import ScriptFront.Stmt.Basic

/-!
# The grammar of statements

The grammar takes the tokens of expressions from elsewhere: `expr` says which
tokens spell which expression. An `else` belongs to the nearest `if` that can
have it, so the branch between an `if` and its `else` does not end in a shorter
`if` that is still open.
-/
namespace ScriptFront

/-- The tokens of a type: a name, and two brackets for an array. -/
inductive TypeName.SpelledBy : TypeName → List Token → Prop
  | plain {t : Token} : t.kind = .identifier → SpelledBy ⟨t, false, none⟩ [t]
  | array {t opening closing : Token} :
      t.kind = .identifier → opening.kind = .openBracket → closing.kind = .closeBracket →
      SpelledBy ⟨t, true, none⟩ [t, opening, closing]

/-- An initializer: an expression behind an assignment sign. -/
def Initializer (expr : Expr → List Token → Prop) (e : Expr) (w : List Token) : Prop :=
  ∃ sign v, sign.kind = .assignment ∧ expr e v ∧ w = sign :: v

/-- The statement ends in an `if` without `else`, to which a following `else`
would belong. -/
def Stmt.endsOpen : Stmt → Bool
  | ifThen _ _ _ => true
  | ifThenElse _ _ elseBranch _ => elseBranch.endsOpen
  | whileLoop _ body _ => body.endsOpen
  | _ => false

/-- What a part of a block can be: a statement, or statements in a row. -/
inductive StmtPhrase where
  | stmt (st : Stmt)
  | stmts (sts : List Stmt)

/-- The tokens of a phrase, given those of expressions. -/
inductive StmtPhrase.SpelledBy (expr : Expr → List Token → Prop) :
    StmtPhrase → List Token → Prop
  | whileLoop {t opening closing : Token} {condition : Expr} {body : Stmt}
      {w v : List Token} :
      t.kind = .whileWord → opening.kind = .openParen → expr condition w →
      closing.kind = .closeParen → SpelledBy expr (.stmt body) v →
      SpelledBy expr (.stmt (.whileLoop condition body t)) (t :: opening :: (w ++ closing :: v))
  | call {t opening closing semicolon : Token} {args : List Expr} {w : List Token} :
      t.kind = .identifier → opening.kind = .openParen → Listed expr args w →
      closing.kind = .closeParen → semicolon.kind = .semicolon →
      SpelledBy expr (.stmt (.call ⟨t, none, none⟩ args opening))
        (t :: opening :: (w ++ [closing, semicolon]))
  | breakLoop {t semicolon : Token} :
      t.kind = .breakWord → semicolon.kind = .semicolon →
      SpelledBy expr (.stmt (.breakLoop t)) [t, semicolon]
  | returnValue {t semicolon : Token} {value? : Option Expr} {w : List Token} :
      t.kind = .returnWord → Possibly expr value? w → semicolon.kind = .semicolon →
      SpelledBy expr (.stmt (.returnValue value? t)) (t :: (w ++ [semicolon]))
  | varDecl {type : TypeName} {name semicolon : Token} {initializer? : Option Expr}
      {w v : List Token} :
      type.SpelledBy w → name.kind = .identifier →
      Possibly (Initializer expr) initializer? v → semicolon.kind = .semicolon →
      SpelledBy expr (.stmt (.varDecl type name initializer? none))
        (w ++ name :: (v ++ [semicolon]))
  | assign {t sign semicolon : Token} {value : Expr} {w : List Token} :
      t.kind = .identifier → sign.kind = .assignment → expr value w →
      semicolon.kind = .semicolon →
      SpelledBy expr (.stmt (.assign ⟨t, none, none⟩ value)) (t :: sign :: (w ++ [semicolon]))
  | ifThen {t opening closing : Token} {condition : Expr} {thenBranch : Stmt}
      {w v : List Token} :
      t.kind = .ifWord → opening.kind = .openParen → expr condition w →
      closing.kind = .closeParen → SpelledBy expr (.stmt thenBranch) v →
      SpelledBy expr (.stmt (.ifThen condition thenBranch t))
        (t :: opening :: (w ++ closing :: v))
  | ifThenElse {t opening closing other : Token} {condition : Expr}
      {thenBranch elseBranch : Stmt} {w v u : List Token} :
      t.kind = .ifWord → opening.kind = .openParen → expr condition w →
      closing.kind = .closeParen → SpelledBy expr (.stmt thenBranch) v →
      thenBranch.endsOpen = false → other.kind = .elseWord →
      SpelledBy expr (.stmt elseBranch) u →
      SpelledBy expr (.stmt (.ifThenElse condition thenBranch elseBranch t))
        (t :: opening :: (w ++ closing :: (v ++ other :: u)))
  | block {opening closing : Token} {sts : List Stmt} {w : List Token} :
      opening.kind = .openCurly → SpelledBy expr (.stmts sts) w →
      closing.kind = .closeCurly →
      SpelledBy expr (.stmt (.block sts opening)) (opening :: (w ++ [closing]))
  | empty {t : Token} : t.kind = .semicolon → SpelledBy expr (.stmt (.empty t)) [t]
  | nil : SpelledBy expr (.stmts []) []
  | cons {st : Stmt} {sts : List Stmt} {w v : List Token} :
      SpelledBy expr (.stmt st) w → SpelledBy expr (.stmts sts) v →
      SpelledBy expr (.stmts (st :: sts)) (w ++ v)

abbrev Stmt.SpelledBy (expr : Expr → List Token → Prop) (st : Stmt) (w : List Token) : Prop :=
  StmtPhrase.SpelledBy expr (.stmt st) w

/-- The tokens of a block: statements between braces. Its opening brace is kept. -/
inductive Braced (expr : Expr → List Token → Prop) : List Stmt × Token → List Token → Prop
  | intro {opening closing : Token} {sts : List Stmt} {w : List Token} :
      opening.kind = .openCurly → Repeated (Stmt.SpelledBy expr) sts w →
      closing.kind = .closeCurly → Braced expr (sts, opening) (opening :: (w ++ [closing]))

variable {expr : Expr → List Token → Prop}

theorem TypeName.SpelledBy.opens {type : TypeName} {w : List Token} (h : type.SpelledBy w) :
    ∃ t v, w = t :: v ∧ t.kind = .identifier := by
  cases h with
  | plain ht => exact ⟨_, _, rfl, ht⟩
  | array ht => exact ⟨_, _, rfl, ht⟩

/-- A token that can stand at the beginning of a statement. -/
def TokenKind.OpensStmt (k : TokenKind) : Prop :=
  k ∈ [.whileWord, .identifier, .breakWord, .returnWord, .ifWord, .openCurly, .semicolon]

namespace Stmt.SpelledBy

theorem opens {st : Stmt} {w : List Token} (h : st.SpelledBy expr w) :
    ∃ t v, w = t :: v ∧ t.kind.OpensStmt := by
  cases h with
  | varDecl htype =>
      obtain ⟨t, v, rfl, ht⟩ := htype.opens
      exact ⟨t, _, rfl, by simp [TokenKind.OpensStmt, ht]⟩
  | whileLoop ht | call ht | breakLoop ht | returnValue ht | assign ht | ifThen ht
  | ifThenElse ht | block ht | empty ht =>
      exact ⟨_, _, rfl, by simp [TokenKind.OpensStmt, ht]⟩

theorem ne_nil {st : Stmt} {w : List Token} (h : st.SpelledBy expr w) : w ≠ [] := by
  obtain ⟨t, v, rfl, -⟩ := h.opens
  simp

theorem call_of_opening {st : Stmt} {t opening : Token} {v : List Token}
    (ht : t.kind = .identifier) (ho : opening.kind = .openParen)
    (h : st.SpelledBy expr (t :: opening :: v)) :
    ∃ args w closing semicolon, st = .call ⟨t, none, none⟩ args opening ∧
      Listed expr args w ∧ v = w ++ [closing, semicolon] := by
  generalize hu : t :: opening :: v = u at h
  cases h with
  | call _ _ hargs =>
      cases hu
      exact ⟨_, _, _, _, rfl, hargs, rfl⟩
  | whileLoop hk | breakLoop hk | returnValue hk | ifThen hk | ifThenElse hk | block hk
  | empty hk =>
      obtain ⟨rfl, -⟩ := List.cons.inj hu
      simp [ht] at hk
  | assign _ hk =>
      cases hu
      simp [ho] at hk
  | varDecl htype hname =>
      cases htype with
      | plain =>
          cases hu
          simp [ho] at hname
      | array _ hk =>
          cases hu
          simp [ho] at hk

end Stmt.SpelledBy

theorem StmtPhrase.spelledBy_stmts_iff {sts : List Stmt} {w : List Token} :
    SpelledBy expr (.stmts sts) w ↔ Repeated (Stmt.SpelledBy expr) sts w := by
  constructor
  · intro h
    generalize hp : StmtPhrase.stmts sts = p at h
    induction h generalizing sts <;> simp only [reduceCtorEq, StmtPhrase.stmts.injEq] at hp
    case nil => exact hp ▸ .nil
    case cons hst _ _ ih => exact hp ▸ .cons hst (ih rfl)
  · intro h
    induction h with
    | nil => exact .nil
    | cons hst _ ih => exact .cons hst ih

theorem Braced.stmt {sts : List Stmt} {opening : Token} {w : List Token}
    (h : Braced expr (sts, opening) w) : Stmt.SpelledBy expr (.block sts opening) w := by
  cases h with
  | intro ho hw hc => exact .block ho (StmtPhrase.spelledBy_stmts_iff.mpr hw) hc

end ScriptFront
