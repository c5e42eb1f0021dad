import Mathlib.Tactic.Common
import ScriptFront.Program.Basic

/-!
# The tokens of trees

A tree can be taken to another one that differs in its tokens alone. Names are
told apart from all other tokens, because what a tree says depends on the texts of
its names and on no other token.
-/
namespace ScriptFront

variable (name mark : Token → Token)

/-- The name with another token. -/
def Ident.mapToken (i : Ident) : Ident := { i with token := name i.token }

/-- The expression with other tokens: one function gives those of names, and
another one the rest. -/
def Expr.mapTokens : Expr → Expr
  | literal value token type? => literal value (mark token) type?
  | ident i => ident (i.mapToken name)
  | unary op operand token type? => unary op operand.mapTokens (mark token) type?
  | binary op left right token type? =>
      binary op left.mapTokens right.mapTokens (mark token) type?
  | call callee args openParen type? =>
      call (callee.mapToken name) (mapAll args) (mark openParen) type?
where
  mapAll : List Expr → List Expr
    | [] => []
    | e :: es => e.mapTokens :: mapAll es

@[simp] theorem Expr.mapAll_eq (es : List Expr) :
    mapTokens.mapAll name mark es = es.map (mapTokens name mark) := by
  induction es with
  | nil => rfl
  | cons e es ih => rw [mapTokens.mapAll, ih, List.map_cons]

def TypeName.mapToken (t : TypeName) : TypeName := { t with token := name t.token }

def Stmt.mapTokens : Stmt → Stmt
  | empty token => empty (mark token)
  | breakLoop token => breakLoop (mark token)
  | whileLoop condition body token =>
      whileLoop (condition.mapTokens name mark) body.mapTokens (mark token)
  | ifThen condition thenBranch token =>
      ifThen (condition.mapTokens name mark) thenBranch.mapTokens (mark token)
  | ifThenElse condition thenBranch elseBranch token =>
      ifThenElse (condition.mapTokens name mark) thenBranch.mapTokens elseBranch.mapTokens
        (mark token)
  | block statements openBrace => block (mapAll statements) (mark openBrace)
  | assign target value => assign (target.mapToken name) (value.mapTokens name mark)
  | returnValue value? token =>
      returnValue (value?.map (Expr.mapTokens name mark)) (mark token)
  | varDecl type declared initializer? symbol? =>
      varDecl (type.mapToken name) (name declared)
        (initializer?.map (Expr.mapTokens name mark)) symbol?
  | call callee args openParen =>
      call (callee.mapToken name) (args.map (Expr.mapTokens name mark)) (mark openParen)
where
  mapAll : List Stmt → List Stmt
    | [] => []
    | s :: ss => s.mapTokens :: mapAll ss

@[simp] theorem Stmt.mapAll_eq (ss : List Stmt) :
    mapTokens.mapAll name mark ss = ss.map (mapTokens name mark) := by
  induction ss with
  | nil => rfl
  | cons s ss ih => rw [mapTokens.mapAll, ih, List.map_cons]

def Param.mapTokens (p : Param) : Param :=
  { p with type := p.type.mapToken name, name := name p.name }

def FnDef.mapTokens (f : FnDef) : FnDef :=
  { f with
    returnType := f.returnType.mapToken name
    name := name f.name
    params := f.params.map (Param.mapTokens name)
    openParen := mark f.openParen
    body := f.body.map (Stmt.mapTokens name mark)
    openBrace := mark f.openBrace }

def GlobalVar.mapTokens (v : GlobalVar) : GlobalVar :=
  { v with type := v.type.mapToken name, name := name v.name }

def Global.mapTokens : Global → Global
  | function f => function (f.mapTokens name mark)
  | var v => var (v.mapTokens name)

def Program.mapTokens (p : Program) : Program :=
  ⟨p.globals.map (Global.mapTokens name mark)⟩

end ScriptFront
