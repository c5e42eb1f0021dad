import Mathlib
import ScriptFront.Proofs.Program.Names
import ScriptFront.Proofs.Tree.Parts
import ScriptFront.Proofs.Typing.Expressions

/-!
# Faults of expressions are reported, and where they are found

An expression for which no type is found has been reported on, when its names were bound
or when it was typed. An operator with an operand of no type says nothing itself: what is
reported on it is what is reported on its operands. Both hold of all expressions of a
program whose declarations are in order, in every scope.
-/
namespace ScriptFront

variable {types : TypeTable} {t : SymbolTable} {result : TypeId} {scope : ScopeId}
  {initializing? : Option SymbolId}

/-! ## The expressions that the first analysis leaves -/

theorem Stmt.AllDeclared.exprs {ss ss' : List Stmt}
    (ih : ∀ s ∈ ss, ∀ {scope s'}, Stmt.Declared types t result scope s s' →
      s'.exprs = s.exprs.map (Expr.typeLiterals types))
    (h : Stmt.AllDeclared types t result scope ss ss') :
    Stmt.exprs.exprsAll ss' = (Stmt.exprs.exprsAll ss).map (Expr.typeLiterals types) := by
  induction ss generalizing ss' with
  | nil =>
      cases h
      rfl
  | cons s ss ihs =>
      cases h with
      | cons hs hss =>
          have hhead := ih s (by simp) hs
          have htail := ihs (fun s hs => ih s (by simp [hs])) hss
          simp [Stmt.exprs.exprsAll, hhead, htail]

theorem Stmt.Declared.exprs {s s' : Stmt} (h : Stmt.Declared types t result scope s s') :
    s'.exprs = s.exprs.map (Expr.typeLiterals types) := by
  induction s using Stmt.tree_induction generalizing scope s' with
  | empty | breakLoop | assign | call =>
      cases h
      rfl
  | whileLoop condition body token ih =>
      cases h with
      | whileLoop hbody => simp [Stmt.exprs, ih hbody]
  | ifThen condition thenBranch token ih =>
      cases h with
      | ifThen hthen => simp [Stmt.exprs, ih hthen]
  | ifThenElse condition thenBranch elseBranch token ihthen ihelse =>
      cases h with
      | ifThenElse hthen helse => simp [Stmt.exprs, ihthen hthen, ihelse helse]
  | block statements openBrace ih =>
      cases h with
      | block _ _ hall => exact hall.exprs ih
  | returnValue value? token =>
      cases h
      cases value? <;> rfl
  | varDecl type name initializer? symbol? =>
      cases h
      cases initializer? <;> rfl

theorem Global.Declared.exprs {g g' : Global} (h : g.Declared types t g') :
    g'.exprs = g.exprs.map (Expr.typeLiterals types) := by
  cases h with
  | var => rfl
  | function hf =>
      cases hf with
      | intro _ _ _ _ _ hbody => exact hbody.exprs fun s _ _ _ hs => hs.exprs

theorem Global.flatMap_exprs_of_declared {gs gs' : List Global}
    (h : List.Forall₂ (Global.Declared types t) gs gs') :
    gs'.flatMap exprs = (gs.flatMap exprs).map (Expr.typeLiterals types) := by
  induction h with
  | nil => rfl
  | cons hg _ ih => rw [List.flatMap_cons, List.flatMap_cons, List.map_append, hg.exprs, ih]

theorem Program.parts_of_declared {p p' : Program}
    (h : List.Forall₂ (Global.Declared types t) p.globals p'.globals) :
    p'.parts = p.parts.map (Expr.typeLiterals types) := by
  unfold parts
  rw [Global.flatMap_exprs_of_declared h, List.flatMap_map, List.map_flatMap]
  simp only [Expr.parts_typeLiterals]

/-! ## Reports on expressions -/

namespace Expr

/-- What is reported on the expression is what is reported on its operands. -/
structure AddsNothing (types : TypeTable) (t : SymbolTable) (scope : ScopeId)
    (initializing? : Option SymbolId) (e : Expr) : Prop where
  binding : (e.bindNames t scope).diagnostics =
    e.operands.flatMap fun o => (o.bindNames t scope).diagnostics
  typing : ((e.bindNames t scope).value.infer types t initializing?).diagnostics =
    e.operands.flatMap fun o =>
      ((o.bindNames t scope).value.infer types t initializing?).diagnostics

theorem addsNothing_of_untyped {e o : Expr} (ho : o ∈ e.operands)
    (hnone : (o.check types t scope initializing?).value.2 = none) :
    e.AddsNothing types t scope initializing? := by
  change ((o.bindNames t scope).value.infer types t initializing?).value.2 = none at hnone
  cases e with
  | literal | ident | call => cases ho
  | unary op operand token type? =>
      obtain rfl : o = operand := by simpa [operands] using ho
      constructor
      · simp [operands, bindNames]
      · simp [operands, bindNames, infer, Typing.unary, hnone]
  | binary op left right token type? =>
      by_cases hop : op = .memberAccess
      · obtain rfl : o = left := by simpa [operands, hop] using ho
        constructor
        · simp [operands, bindNames, hop]
        · simp [operands, bindNames, infer, Typing.member, hop, hnone]
      · have hside : o = left ∨ o = right := by simpa [operands, hop] using ho
        constructor
        · simp [operands, bindNames, hop]
        · -- Both operands are typed before it is seen that one of them has no type.
          rcases hside with rfl | rfl <;>
            simp [operands, bindNames, infer, Typing.binary, hop, hnone]

/-- An expression without a type has been reported on. -/
theorem analyzed_reports {Γ : TypingContext} (h : Γ.symbols.Complete) (hl : Γ.types.HasLiterals)
    {e : Expr} (hnone : (e.analyzed Γ).value.2 = none) : (e.analyzed Γ).diagnostics ≠ [] := by
  intro hclean
  obtain ⟨t, ht, -⟩ := (e.analyzed_decides h hl).sound hclean
  rw [Typed.Is, hnone] at ht
  cases ht

end Expr

/-! ## Programs -/

/-- In a program of a source whose declarations are in order, no expression without a type
goes unreported, and no operator with an operand of no type is reported itself. -/
theorem Program.untyped_reported {source : String} {tokens : List Token} {p p' : Program}
    {symbols : SymbolTable} (hsource : Token.ofSource source = .ok tokens)
    (hp : Program.ofTokens tokens = .ok p)
    (hdeclare : (p.declare .primitives).run .empty = ⟨(p', symbols), []⟩) :
    ∀ e ∈ p'.parts, ∀ scope initializing?,
      ((e.check .primitives symbols scope initializing?).value.2 = none →
        (e.check .primitives symbols scope initializing?).diagnostics ≠ []) ∧
      ∀ o ∈ e.operands, (o.check .primitives symbols scope initializing?).value.2 = none →
        e.AddsNothing .primitives symbols scope initializing? := by
  have hleads := @declare_leads .primitives p
    fun g hg name hname => name_ne_returnValueName hsource hp hg hname
  change p.declare .primitives .empty = _ at hdeclare
  unfold Declaring.Leads at hleads
  rw [hdeclare] at hleads
  obtain ⟨hcomplete, hglobals⟩ := hleads rfl
  intro e he scope initializing?
  rw [parts_of_declared hglobals, List.mem_map] at he
  obtain ⟨written, -, rfl⟩ := he
  refine ⟨?_, fun o ho hnone => Expr.addsNothing_of_untyped ho hnone⟩
  exact Expr.analyzed_reports (Γ := ⟨.primitives, symbols, scope, initializing?⟩) hcomplete
    TypeTable.hasLiterals_primitives

/-- An unknown name behind a minus sign is reported once. -/
theorem Program.untyped_reported_of_unknown :
    let type : Token := ⟨.identifier, "int", ⟨1, 1⟩⟩
    let name : Token := ⟨.identifier, "f", ⟨1, 5⟩⟩
    let openParen : Token := ⟨.openParen, "(", ⟨1, 6⟩⟩
    let openBrace : Token := ⟨.openCurly, "\x7b", ⟨1, 8⟩⟩
    let word : Token := ⟨.returnWord, "return", ⟨1, 9⟩⟩
    let minus : Token := ⟨.dash, "-", ⟨1, 16⟩⟩
    let unknown : Token := ⟨.identifier, "x", ⟨1, 17⟩⟩
    let value := Expr.unary .neg (.ident ⟨unknown, none, none⟩) minus none
    let p : Program := ⟨[.function ⟨⟨type, false, none⟩, name, [], openParen,
      [.returnValue (some value) word], openBrace, none⟩]⟩
    ∃ tokens p' symbols, Token.ofSource "int f()\x7breturn -x;\x7d" = .ok tokens ∧
      Program.ofTokens tokens = .ok p ∧
      (p.declare .primitives).run .empty = ⟨(p', symbols), []⟩ ∧
      ∃ e ∈ p'.parts, (e.check .primitives symbols ⟨2⟩ none).value.2 = none ∧
        (e.check .primitives symbols ⟨2⟩ none).diagnostics ≠ [] ∧
        ∃ o ∈ e.operands, (o.check .primitives symbols ⟨2⟩ none).value.2 = none ∧
          e.AddsNothing .primitives symbols ⟨2⟩ none := by
  intro type name openParen openBrace word minus unknown value p
  have hsource : Token.ofSource "int f()\x7breturn -x;\x7d" = .ok
      [type, name, openParen, ⟨.closeParen, ")", ⟨1, 7⟩⟩, openBrace, word, minus, unknown,
        ⟨.semicolon, ";", ⟨1, 18⟩⟩, ⟨.closeCurly, "\x7d", ⟨1, 19⟩⟩, .endOfInput ⟨1, 20⟩] := by
    decide +kernel
  have hp : Program.ofTokens [type, name, openParen, ⟨.closeParen, ")", ⟨1, 7⟩⟩, openBrace,
      word, minus, unknown, ⟨.semicolon, ";", ⟨1, 18⟩⟩, ⟨.closeCurly, "\x7d", ⟨1, 19⟩⟩,
      .endOfInput ⟨1, 20⟩] = .ok p := by
    cbv
  have hclean : ((p.declare .primitives).run .empty).diagnostics = [] := by
    decide +kernel
  have hfound : (((p.declare .primitives).run .empty).value.1.parts.any fun e =>
      (e.check .primitives ((p.declare .primitives).run .empty).value.2 ⟨2⟩ none).value.2.isNone &&
        e.operands.any fun o => (o.check .primitives
          ((p.declare .primitives).run .empty).value.2 ⟨2⟩ none).value.2.isNone) = true := by
    decide +kernel
  cases hdeclare : (p.declare .primitives).run .empty with
  | mk answer diagnostics =>
      rw [hdeclare] at hclean hfound
      obtain rfl : diagnostics = [] := hclean
      obtain ⟨e, he, hnone⟩ := List.any_eq_true.mp hfound
      obtain ⟨hnone, hsome⟩ := Bool.and_eq_true_iff.mp hnone
      obtain ⟨o, ho, hnone'⟩ := List.any_eq_true.mp hsome
      have hboth := untyped_reported hsource hp hdeclare e he ⟨2⟩ none
      exact ⟨_, answer.1, answer.2, hsource, hp, rfl, e, he, Option.isNone_iff_eq_none.mp hnone,
        hboth.1 (Option.isNone_iff_eq_none.mp hnone), o, ho, Option.isNone_iff_eq_none.mp hnone',
        hboth.2 o ho (Option.isNone_iff_eq_none.mp hnone')⟩

end ScriptFront
