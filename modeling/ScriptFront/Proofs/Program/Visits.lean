import ScriptFront.Program.Visits
import ScriptFront.Proofs.Tree.Induction

/-!
# Walks over programs and over their outlines

A walk that goes on by the form of each node makes the visits of a walk over the outline. There
a node is told to be the last if no sibling is behind it; here each form says of its own parts
which one is the last, and in lists the number of the item says it.
-/
namespace ScriptFront

open Outline.walk (walkList)

variable {descend : NodeKind → Bool} {isLast : Bool}

namespace Visit

theorem leaf_eq_walk (descend : NodeKind → Bool) (label : NodeLabel) (isLast : Bool) :
    leaf label isLast = (Outline.leaf label).walk descend isLast := by
  simp only [leaf, Outline.leaf, Outline.walk, walkList, ite_self, List.nil_append]

theorem around_eq_walk {label : NodeLabel} {parts : List Visit} {trees : List Outline}
    (h : parts = walkList descend trees) :
    around descend label isLast parts = (Outline.node label trees).walk descend isLast := by
  rw [h]
  rfl

/-- The number of an item tells it to be the last if and only if none is behind it. -/
theorem items_eq_walkList {α : Type} {visit : α → Bool → List Visit} {outline : α → Outline}
    {xs : List α} {i count : Nat}
    (h : ∀ x ∈ xs, ∀ last, visit x last = (outline x).walk descend last)
    (hcount : count = i + xs.length) :
    items visit count i xs = walkList descend (xs.map outline) := by
  induction xs generalizing i with
  | nil => rfl
  | cons x xs ih =>
      rw [List.forall_mem_cons] at h
      rw [List.length_cons] at hcount
      have hlast : (i + 1 == count) = (xs.map outline).isEmpty := by
        cases xs with
        | nil => simp [hcount]
        | cons y ys => simp [hcount]
      rw [items, List.map_cons, walkList, h.1, hlast, ih h.2 (by omega)]

end Visit

theorem Ident.visits_eq_walk (i : Ident) (kind : NodeKind) (descend : NodeKind → Bool)
    (isLast : Bool) : i.visits kind isLast = (i.outline kind).walk descend isLast :=
  Visit.leaf_eq_walk descend (i.label kind) isLast

theorem TypeName.visits_eq_walk (t : TypeName) (descend : NodeKind → Bool) (isLast : Bool) :
    t.visits isLast = t.outline.walk descend isLast :=
  Visit.leaf_eq_walk descend t.label isLast

/-! ## Expressions -/

theorem Expr.visitsAll_eq_items (descend : NodeKind → Bool) (count i : Nat) (es : List Expr) :
    visits.visitsAll descend count i es =
      Visit.items (fun e isLast => e.visits descend isLast) count i es := by
  induction es generalizing i with
  | nil => rfl
  | cons e es ih => rw [visits.visitsAll, Visit.items, ih]

theorem Expr.visits_arguments {openParen : Token} {args : List Expr}
    (h : ∀ e ∈ args, ∀ isLast, e.visits descend isLast = e.outline.walk descend isLast) :
    Visit.around descend (.inParens .argList openParen args.length) isLast
        (visits.visitsAll descend args.length 0 args) =
      (Outline.inParens .argList openParen (outline.outlines args)).walk descend isLast := by
  have hitems := Visit.items_eq_walkList h (Nat.zero_add args.length).symm
  rw [← visitsAll_eq_items, ← outline.outlines_eq_map] at hitems
  have hlength : (outline.outlines args).length = args.length := by
    rw [outline.outlines_eq_map, List.length_map]
  rw [Outline.inParens, hlength]
  exact Visit.around_eq_walk hitems

theorem Expr.visits_eq_walk (e : Expr) (isLast : Bool) :
    e.visits descend isLast = e.outline.walk descend isLast := by
  induction e using Expr.tree_induction generalizing isLast with
  | literal value token type? => exact Visit.leaf_eq_walk descend _ isLast
  | ident i => exact i.visits_eq_walk .ident descend isLast
  | unary op operand token type? ih =>
      rw [visits, outline]
      apply Visit.around_eq_walk
      rw [ih]
      simp [walkList]
  | binary op left right token type? ihleft ihright =>
      rw [visits, outline]
      apply Visit.around_eq_walk
      rw [ihleft, ihright]
      simp [walkList]
  | call callee args openParen type? ih =>
      rw [visits, outline]
      apply Visit.around_eq_walk
      rw [callee.visits_eq_walk .callee descend, visits_arguments ih]
      simp [walkList]

/-! ## Statements -/

theorem Stmt.visitsAll_eq_items (descend : NodeKind → Bool) (count i : Nat) (ss : List Stmt) :
    visits.visitsAll descend count i ss =
      Visit.items (fun s isLast => s.visits descend isLast) count i ss := by
  induction ss generalizing i with
  | nil => rfl
  | cons s ss ih => rw [visits.visitsAll, Visit.items, ih]

theorem Stmt.visits_eq_walk (s : Stmt) (isLast : Bool) :
    s.visits descend isLast = s.outline.walk descend isLast := by
  induction s using Stmt.tree_induction generalizing isLast with
  | empty token | breakLoop token => exact Visit.leaf_eq_walk descend _ isLast
  | whileLoop condition body token ih =>
      rw [visits, outline]
      apply Visit.around_eq_walk
      rw [condition.visits_eq_walk, ih]
      simp [walkList]
  | ifThen condition thenBranch token ih =>
      rw [visits, outline]
      apply Visit.around_eq_walk
      rw [condition.visits_eq_walk, ih]
      simp [walkList]
  | ifThenElse condition thenBranch elseBranch token ihthen ihelse =>
      rw [visits, outline]
      apply Visit.around_eq_walk
      rw [condition.visits_eq_walk, ihthen, ihelse]
      simp [walkList]
  | block statements openBrace ih =>
      rw [visits, outline]
      apply Visit.around_eq_walk
      rw [visitsAll_eq_items, outline.outlines_eq_map]
      exact Visit.items_eq_walkList ih (Nat.zero_add _).symm
  | assign target value =>
      rw [visits, outline]
      apply Visit.around_eq_walk
      rw [target.visits_eq_walk .ident descend, value.visits_eq_walk]
      simp [walkList]
  | returnValue value? token =>
      cases value? with
      | none => exact Visit.around_eq_walk rfl
      | some value =>
          rw [visits, outline]
          apply Visit.around_eq_walk
          simp [walkList, value.visits_eq_walk]
  | varDecl type name initializer? symbol? =>
      cases initializer? with
      | none =>
          rw [visits, outline]
          apply Visit.around_eq_walk
          simp [walkList, type.visits_eq_walk descend]
      | some initializer =>
          rw [visits, outline]
          apply Visit.around_eq_walk
          simp [walkList, type.visits_eq_walk descend, initializer.visits_eq_walk]
  | call callee args openParen =>
      have hargs : ∀ e ∈ args, ∀ isLast,
          e.visits descend isLast = e.outline.walk descend isLast :=
        fun e _ => e.visits_eq_walk
      rw [visits, outline]
      apply Visit.around_eq_walk
      rw [callee.visits_eq_walk .callee descend, Expr.visits_arguments hargs]
      simp [walkList]

/-! ## Definitions -/

theorem Param.visits_eq_walk (p : Param) (isLast : Bool) :
    p.visits descend isLast = p.outline.walk descend isLast := by
  apply Visit.around_eq_walk
  rw [p.type.visits_eq_walk descend]
  simp [walkList]

theorem GlobalVar.visits_eq_walk (v : GlobalVar) (isLast : Bool) :
    v.visits descend isLast = v.outline.walk descend isLast := by
  apply Visit.around_eq_walk
  rw [v.type.visits_eq_walk descend]
  simp [walkList]

theorem FnDef.visits_params (descend : NodeKind → Bool) (f : FnDef) (isLast : Bool) :
    Visit.around descend (.inParens .paramList f.openParen f.params.length) isLast
        (Visit.items (Param.visits descend) f.params.length 0 f.params) =
      (Outline.inParens .paramList f.openParen (f.params.map Param.outline)).walk descend
        isLast := by
  rw [Outline.inParens, List.length_map]
  exact Visit.around_eq_walk (Visit.items_eq_walkList (fun p _ => p.visits_eq_walk)
    (Nat.zero_add _).symm)

theorem FnDef.visits_eq_walk (f : FnDef) (isLast : Bool) :
    f.visits descend isLast = f.outline.walk descend isLast := by
  apply Visit.around_eq_walk
  rw [f.returnType.visits_eq_walk descend, f.visits_params, Stmt.visits_eq_walk]
  simp [walkList]

theorem Global.visits_eq_walk (g : Global) (isLast : Bool) :
    g.visits descend isLast = g.outline.walk descend isLast := by
  cases g with
  | function f => exact f.visits_eq_walk isLast
  | var v => exact v.visits_eq_walk isLast

/-- The visits of a program are those of a walk over its outline. -/
theorem Program.visits_eq_walk (p : Program) (descend : NodeKind → Bool) (isLast : Bool) :
    p.visits descend isLast = p.outline.walk descend isLast :=
  Visit.around_eq_walk (Visit.items_eq_walkList (fun g _ => g.visits_eq_walk)
    (Nat.zero_add _).symm)

end ScriptFront
