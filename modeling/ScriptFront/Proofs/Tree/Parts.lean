import ScriptFront.Expr.Typing
import ScriptFront.Program.Basic
import ScriptFront.Proofs.Tree.Induction

/-!
# The expressions of a tree

An expression has itself and the expressions inside of it as its parts. The analysis of
an operator reads the types of its operands; the name of a member is a part but not an
operand. That literals are given their types changes nothing about which parts there are.
-/
namespace ScriptFront

/-- The expression and all expressions inside of it. -/
def Expr.parts (e : Expr) : List Expr :=
  match e with
  | literal .. | ident .. => [e]
  | unary _ operand _ _ => e :: operand.parts
  | binary _ left right _ _ => e :: (left.parts ++ right.parts)
  | call _ args _ _ => e :: partsAll args
where
  partsAll : List Expr → List Expr
    | [] => []
    | e :: es => e.parts ++ partsAll es

/-- The expressions whose types the type of an operator depends on. -/
def Expr.operands : Expr → List Expr
  | unary _ operand _ _ => [operand]
  | binary op left right _ _ => if op = .memberAccess then [left] else [left, right]
  | _ => []

/-- The expressions in a statement that are in no other expression. A target of an
assignment and a call that is a statement count among them. -/
def Stmt.exprs : Stmt → List Expr
  | empty _ | breakLoop _ => []
  | whileLoop condition body _ => condition :: body.exprs
  | ifThen condition thenBranch _ => condition :: thenBranch.exprs
  | ifThenElse condition thenBranch elseBranch _ =>
      condition :: (thenBranch.exprs ++ elseBranch.exprs)
  | block statements _ => exprsAll statements
  | assign target value => [.ident target, value]
  | returnValue value? _ => value?.toList
  | varDecl _ _ initializer? _ => initializer?.toList
  | call callee args openParen => [.call callee args openParen none]
where
  exprsAll : List Stmt → List Expr
    | [] => []
    | s :: ss => s.exprs ++ exprsAll ss

def Global.exprs : Global → List Expr
  | function f => Stmt.exprs.exprsAll f.body
  | var _ => []

def Program.parts (p : Program) : List Expr :=
  (p.globals.flatMap Global.exprs).flatMap Expr.parts

variable {types : TypeTable}

theorem Expr.partsAll_typeAll {es : List Expr}
    (h : ∀ e ∈ es, (e.typeLiterals types).parts = e.parts.map (typeLiterals types)) :
    parts.partsAll (typeLiterals.typeAll types es) =
      (parts.partsAll es).map (typeLiterals types) := by
  induction es with
  | nil => rfl
  | cons e es ih =>
      have he := h e (by simp)
      have hes := ih fun e he => h e (by simp [he])
      simp [typeLiterals.typeAll, parts.partsAll, he, hes]

theorem Expr.parts_typeLiterals (e : Expr) :
    (e.typeLiterals types).parts = e.parts.map (typeLiterals types) := by
  induction e using tree_induction with
  | literal | ident => rfl
  | unary op operand token type? ih => simp [typeLiterals, parts, ih]
  | binary op left right token type? ihl ihr => simp [typeLiterals, parts, ihl, ihr]
  | call callee args openParen type? ih => simp [typeLiterals, parts, partsAll_typeAll ih]

end ScriptFront
