import ScriptFront.Outline
import ScriptFront.Program.Basic

/-!
# The outline of a program

Which nodes an expression, a statement and a definition have, what each of them
says, and which parts are its children. Arguments and parameters form a node of
their own.
-/
namespace ScriptFront

def Literal.nodeKind : Literal → NodeKind
  | int _ => .int
  | float _ => .float
  | bool _ => .bool
  | string _ => .string

/-! ## Labels -/

/-- A name as a node; the name of a called function is a node of another kind
than the name of a value. -/
def Ident.label (kind : NodeKind) (i : Ident) : NodeLabel :=
  ⟨kind, some i.token.position, .name i.name, i.type?, i.symbol?⟩

/-- A list in parentheses, with the number of its items. -/
def NodeLabel.inParens (kind : NodeKind) (openParen : Token) (count : Nat) : NodeLabel :=
  ⟨kind, some openParen.position, .count count, none, none⟩

def Expr.label : Expr → NodeLabel
  | literal value token type? => ⟨value.nodeKind, some token.position, .literal value, type?, none⟩
  | ident i => i.label .ident
  | unary op _ token type? => ⟨.unary, some token.position, .unary op, type?, none⟩
  | binary op _ _ token type? => ⟨.binary, some token.position, .binary op, type?, none⟩
  | call callee _ _ type? =>
      ⟨.callExpr, some callee.token.position, .name callee.name, type?, none⟩

def TypeName.label (t : TypeName) : NodeLabel :=
  ⟨.typeName, some t.token.position, .name t.fullName, t.resolved?, none⟩

/-- What is said about a statement that is a body or a branch. -/
def Stmt.bodyNote (s : Stmt) : BodyNote :=
  ⟨s.formName, s.isEmpty, s.token.position⟩

def Stmt.label : Stmt → NodeLabel
  | empty token => { kind := .empty, place? := some token.position }
  | breakLoop token => { kind := .breakLoop, place? := some token.position }
  | whileLoop _ body token =>
      ⟨.whileLoop, some token.position, .bodies [body.bodyNote], none, none⟩
  | ifThen _ thenBranch token =>
      ⟨.ifThen, some token.position, .bodies [thenBranch.bodyNote], none, none⟩
  | ifThenElse _ thenBranch elseBranch token =>
      ⟨.ifThenElse, some token.position, .bodies [thenBranch.bodyNote, elseBranch.bodyNote],
        none, none⟩
  | block statements openBrace =>
      ⟨.block, some openBrace.position, .block (blockScopeName openBrace) statements.length,
        none, none⟩
  | assign target _ => { kind := .assign, place? := some target.token.position }
  | returnValue value? token =>
      ⟨.returnValue, some token.position, .returned (value?.map (·.token.position)), none, none⟩
  | varDecl type name _ symbol? =>
      ⟨.varDecl, some type.token.position, .declared name, none, symbol?⟩
  | call callee _ _ => { kind := .callStmt, place? := some callee.token.position }

def Param.label (p : Param) : NodeLabel :=
  ⟨.param, some p.type.token.position, .declared p.name, none, p.symbol?⟩

def GlobalVar.label (v : GlobalVar) : NodeLabel :=
  ⟨.globalVar, some v.type.token.position, .declared v.name, none, v.symbol?⟩

def FnDef.label (f : FnDef) : NodeLabel :=
  ⟨.fnDef, some f.returnType.token.position, .declared f.name, none, f.symbol?⟩

/-- A program stands where its first definition does. -/
def Program.label (p : Program) : NodeLabel :=
  ⟨.program, p.globals.head?.map (·.token.position), .count p.globals.length, none, none⟩

/-! ## Trees -/

def Ident.outline (kind : NodeKind) (i : Ident) : Outline := .leaf (i.label kind)

def Outline.inParens (kind : NodeKind) (openParen : Token) (items : List Outline) : Outline :=
  .node (.inParens kind openParen items.length) items

def Expr.outline : Expr → Outline
  | literal value token type? => .leaf (literal value token type?).label
  | ident i => i.outline .ident
  | unary op operand token type? =>
      .node (unary op operand token type?).label [operand.outline]
  | binary op left right token type? =>
      .node (binary op left right token type?).label [left.outline, right.outline]
  | call callee args openParen type? =>
      .node (call callee args openParen type?).label
        [callee.outline .callee, .inParens .argList openParen (outlines args)]
where
  outlines : List Expr → List Outline
    | [] => []
    | e :: es => e.outline :: outlines es

theorem Expr.outline.outlines_eq_map (es : List Expr) : outlines es = es.map Expr.outline := by
  induction es with
  | nil => rfl
  | cons e es ih => simp [outlines, ih]

def TypeName.outline (t : TypeName) : Outline := .leaf t.label

def Stmt.outline : Stmt → Outline
  | empty token => .leaf (empty token).label
  | breakLoop token => .leaf (breakLoop token).label
  | whileLoop condition body token =>
      .node (whileLoop condition body token).label [condition.outline, body.outline]
  | ifThen condition thenBranch token =>
      .node (ifThen condition thenBranch token).label [condition.outline, thenBranch.outline]
  | ifThenElse condition thenBranch elseBranch token =>
      .node (ifThenElse condition thenBranch elseBranch token).label
        [condition.outline, thenBranch.outline, elseBranch.outline]
  | block statements openBrace => .node (block statements openBrace).label (outlines statements)
  | assign target value => .node (assign target value).label [target.outline .ident, value.outline]
  | returnValue value? token =>
      .node (returnValue value? token).label (value?.map Expr.outline).toList
  | varDecl type name initializer? symbol? =>
      .node (varDecl type name initializer? symbol?).label
        (type.outline :: (initializer?.map Expr.outline).toList)
  | call callee args openParen =>
      .node (call callee args openParen).label
        [callee.outline .callee, .inParens .argList openParen (Expr.outline.outlines args)]
where
  outlines : List Stmt → List Outline
    | [] => []
    | s :: ss => s.outline :: outlines ss

theorem Stmt.outline.outlines_eq_map (ss : List Stmt) : outlines ss = ss.map Stmt.outline := by
  induction ss with
  | nil => rfl
  | cons s ss ih => simp [outlines, ih]

def Param.outline (p : Param) : Outline := .node p.label [p.type.outline]

def GlobalVar.outline (v : GlobalVar) : Outline := .node v.label [v.type.outline]

/-- The outline of a function definition: its type, parameters and body. -/
def FnDef.outline (f : FnDef) : Outline :=
  .node f.label
    [f.returnType.outline, .inParens .paramList f.openParen (f.params.map Param.outline),
      (Stmt.block f.body f.openBrace).outline]

def Global.outline : Global → Outline
  | function f => f.outline
  | var v => v.outline

def Program.outline (p : Program) : Outline :=
  .node p.label (p.globals.map Global.outline)

end ScriptFront
