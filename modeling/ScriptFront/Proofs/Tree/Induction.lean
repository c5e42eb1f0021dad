import ScriptFront.Stmt.Basic

/-!
# Induction over trees

The trees of expressions and statements contain lists of trees. What holds of a
tree whenever it holds of its parts, those in lists included, holds of all trees.
-/
namespace ScriptFront

/-- Trees of expressions are built from their parts. -/
@[elab_as_elim]
theorem Expr.tree_induction {P : Expr → Prop}
    (literal : ∀ value token type?, P (.literal value token type?))
    (ident : ∀ i, P (.ident i))
    (unary : ∀ op operand token type?, P operand → P (.unary op operand token type?))
    (binary : ∀ op left right token type?, P left → P right →
      P (.binary op left right token type?))
    (call : ∀ callee args openParen type?, (∀ e ∈ args, P e) →
      P (.call callee args openParen type?)) : ∀ e, P e
  | .literal value token type? => literal value token type?
  | .ident i => ident i
  | .unary op operand token type? =>
      unary op operand token type? (tree_induction literal ident unary binary call operand)
  | .binary op left right token type? =>
      binary op left right token type? (tree_induction literal ident unary binary call left)
        (tree_induction literal ident unary binary call right)
  | .call callee args openParen type? =>
      call callee args openParen type?
        fun e _ => tree_induction literal ident unary binary call e

/-- Trees of statements are built from their parts. -/
@[elab_as_elim]
theorem Stmt.tree_induction {P : Stmt → Prop} (empty : ∀ token, P (.empty token))
    (breakLoop : ∀ token, P (.breakLoop token))
    (whileLoop : ∀ condition body token, P body → P (.whileLoop condition body token))
    (ifThen : ∀ condition thenBranch token, P thenBranch →
      P (.ifThen condition thenBranch token))
    (ifThenElse : ∀ condition thenBranch elseBranch token, P thenBranch → P elseBranch →
      P (.ifThenElse condition thenBranch elseBranch token))
    (block : ∀ statements openBrace, (∀ s ∈ statements, P s) →
      P (.block statements openBrace))
    (assign : ∀ target value, P (.assign target value))
    (returnValue : ∀ value? token, P (.returnValue value? token))
    (varDecl : ∀ type name initializer? symbol?, P (.varDecl type name initializer? symbol?))
    (call : ∀ callee args openParen, P (.call callee args openParen)) : ∀ s, P s
  | .empty token => empty token
  | .breakLoop token => breakLoop token
  | .whileLoop condition body token =>
      whileLoop condition body token (tree_induction empty breakLoop whileLoop ifThen ifThenElse
        block assign returnValue varDecl call body)
  | .ifThen condition thenBranch token =>
      ifThen condition thenBranch token (tree_induction empty breakLoop whileLoop ifThen
        ifThenElse block assign returnValue varDecl call thenBranch)
  | .ifThenElse condition thenBranch elseBranch token =>
      ifThenElse condition thenBranch elseBranch token
        (tree_induction empty breakLoop whileLoop ifThen ifThenElse block assign returnValue
          varDecl call thenBranch)
        (tree_induction empty breakLoop whileLoop ifThen ifThenElse block assign returnValue
          varDecl call elseBranch)
  | .block statements openBrace => block statements openBrace fun s _ =>
      tree_induction empty breakLoop whileLoop ifThen ifThenElse block assign returnValue
        varDecl call s
  | .assign target value => assign target value
  | .returnValue value? token => returnValue value? token
  | .varDecl type name initializer? symbol? => varDecl type name initializer? symbol?
  | .call callee args openParen => call callee args openParen

end ScriptFront
