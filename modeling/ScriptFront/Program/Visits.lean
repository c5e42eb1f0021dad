import ScriptFront.Program.Outline

/-!
# Walks over programs

What a walk tells of each form of node. A walk enters a node, goes on to its
parts in the order of the source, and leaves the node. It can refuse to look
into nodes of some kinds; these are left as soon as they are entered.

Each form says of its own parts which is the last. The type of a declaration is
the last part only if no initializer follows, and in a list the last item is
told by its number.
-/
namespace ScriptFront

namespace Visit

/-- A node without parts is entered and left, whatever kinds are refused. -/
def leaf (label : NodeLabel) (isLast : Bool) : List Visit :=
  [⟨true, label, isLast⟩, ⟨false, label, isLast⟩]

/-- Enters a node, visits its parts unless its kind is refused, and leaves it. -/
def around (descend : NodeKind → Bool) (label : NodeLabel) (isLast : Bool)
    (parts : List Visit) : List Visit :=
  ⟨true, label, isLast⟩ ::
    ((if descend label.kind then parts else []) ++ [⟨false, label, isLast⟩])

/-- Visits the items of a list, the first of which has the number `i` of `count`
items. -/
def items {α : Type} (visit : α → Bool → List Visit) (count i : Nat) : List α → List Visit
  | [] => []
  | x :: xs => visit x (i + 1 == count) ++ items visit count (i + 1) xs

end Visit

def Ident.visits (kind : NodeKind) (i : Ident) (isLast : Bool) : List Visit :=
  Visit.leaf (i.label kind) isLast

/-- The visits of a walk over an expression. -/
def Expr.visits (descend : NodeKind → Bool) (isLast : Bool) : Expr → List Visit
  | literal value token type? => Visit.leaf (literal value token type?).label isLast
  | ident i => i.visits .ident isLast
  | unary op operand token type? =>
      Visit.around descend (unary op operand token type?).label isLast
        (operand.visits descend true)
  | binary op left right token type? =>
      Visit.around descend (binary op left right token type?).label isLast
        (left.visits descend false ++ right.visits descend true)
  | call callee args openParen type? =>
      Visit.around descend (call callee args openParen type?).label isLast
        (callee.visits .callee false ++
          Visit.around descend (.inParens .argList openParen args.length) true
            (visitsAll descend args.length 0 args))
where
  visitsAll (descend : NodeKind → Bool) (count i : Nat) : List Expr → List Visit
    | [] => []
    | e :: es => e.visits descend (i + 1 == count) ++ visitsAll descend count (i + 1) es

def TypeName.visits (t : TypeName) (isLast : Bool) : List Visit :=
  Visit.leaf t.label isLast

def Stmt.visits (descend : NodeKind → Bool) (isLast : Bool) : Stmt → List Visit
  | empty token => Visit.leaf (empty token).label isLast
  | breakLoop token => Visit.leaf (breakLoop token).label isLast
  | whileLoop condition body token =>
      Visit.around descend (whileLoop condition body token).label isLast
        (condition.visits descend false ++ body.visits descend true)
  | ifThen condition thenBranch token =>
      Visit.around descend (ifThen condition thenBranch token).label isLast
        (condition.visits descend false ++ thenBranch.visits descend true)
  | ifThenElse condition thenBranch elseBranch token =>
      Visit.around descend (ifThenElse condition thenBranch elseBranch token).label isLast
        (condition.visits descend false ++ thenBranch.visits descend false ++
          elseBranch.visits descend true)
  | block statements openBrace =>
      Visit.around descend (block statements openBrace).label isLast
        (visitsAll descend statements.length 0 statements)
  | assign target value =>
      Visit.around descend (assign target value).label isLast
        (target.visits .ident false ++ value.visits descend true)
  | returnValue value? token =>
      Visit.around descend (returnValue value? token).label isLast
        (match value? with
          | none => []
          | some value => value.visits descend true)
  | varDecl type name initializer? symbol? =>
      Visit.around descend (varDecl type name initializer? symbol?).label isLast
        (type.visits (!initializer?.isSome) ++
          match initializer? with
            | none => []
            | some initializer => initializer.visits descend true)
  | call callee args openParen =>
      Visit.around descend (call callee args openParen).label isLast
        (callee.visits .callee false ++
          Visit.around descend (.inParens .argList openParen args.length) true
            (Expr.visits.visitsAll descend args.length 0 args))
where
  visitsAll (descend : NodeKind → Bool) (count i : Nat) : List Stmt → List Visit
    | [] => []
    | s :: ss => s.visits descend (i + 1 == count) ++ visitsAll descend count (i + 1) ss

def Param.visits (descend : NodeKind → Bool) (p : Param) (isLast : Bool) : List Visit :=
  Visit.around descend p.label isLast (p.type.visits true)

def GlobalVar.visits (descend : NodeKind → Bool) (v : GlobalVar) (isLast : Bool) : List Visit :=
  Visit.around descend v.label isLast (v.type.visits true)

def FnDef.visits (descend : NodeKind → Bool) (f : FnDef) (isLast : Bool) : List Visit :=
  Visit.around descend f.label isLast
    (f.returnType.visits false ++
      Visit.around descend (.inParens .paramList f.openParen f.params.length) false
        (Visit.items (Param.visits descend) f.params.length 0 f.params) ++
      (Stmt.block f.body f.openBrace).visits descend true)

def Global.visits (descend : NodeKind → Bool) : Global → Bool → List Visit
  | function f, isLast => f.visits descend isLast
  | var v, isLast => v.visits descend isLast

def Program.visits (descend : NodeKind → Bool) (p : Program) (isLast : Bool) : List Visit :=
  Visit.around descend p.label isLast
    (Visit.items (Global.visits descend) p.globals.length 0 p.globals)

end ScriptFront
