import ScriptFront.Expr.Basic

/-!
# Outlines

An outline is the bare tree of a program: what kind of thing each node is, where
it stands, what it says, and what is known about it. The parts of a node are its
children, in the order of the source.

An outline can be listed from the root down, or walked. A walk enters a node,
walks its children, and leaves the node; it can refuse to look into nodes of
some kinds, which are then entered and left without their children. It tells of
each node whether it is the last of its siblings.
-/
namespace ScriptFront

inductive NodeKind where
  | program | fnDef | globalVar | paramList | param | typeName
  | block | whileLoop | ifThen | ifThenElse | assign | returnValue | varDecl | callStmt
  | breakLoop | empty
  | argList | int | float | bool | string | ident | callee | unary | binary | callExpr
deriving DecidableEq, Repr

def NodeKind.name : NodeKind → String
  | program => "program"
  | fnDef => "fn_def"
  | globalVar => "global_var"
  | paramList => "param_list"
  | param => "param"
  | typeName => "type_node"
  | block => "block"
  | whileLoop => "while"
  | ifThen => "if_then"
  | ifThenElse => "if_then_else"
  | assign => "assign"
  | returnValue => "return"
  | varDecl => "var_decl"
  | callStmt => "call_stmt"
  | breakLoop => "break"
  | empty => "empty"
  | argList => "arg_list"
  | int => "int"
  | float => "float"
  | bool => "bool"
  | string => "string"
  | ident => "ident"
  | callee => "callee"
  | unary => "unary"
  | binary => "binary"
  | callExpr => "call_expr"

/-- What an outline says about a statement that is a body or a branch. -/
structure BodyNote where
  form : String
  isEmpty : Bool
  position : Position
deriving DecidableEq, Repr

/-- What a node says about itself. -/
inductive NodeNote where
  | nothing
  /-- How many parts there are. -/
  | count (n : Nat)
  /-- The name that is declared, and its place. -/
  | declared (name : Token)
  /-- A name in use. -/
  | name (name : String)
  /-- The scope that a block opens, and how many statements it has. -/
  | block (scopeName : String) (count : Nat)
  | bodies (notes : List BodyNote)
  /-- The place of a returned value. -/
  | returned (place? : Option Position)
  | literal (value : Literal)
  | unary (op : UnaryOp)
  | binary (op : BinaryOp)
deriving DecidableEq, Repr

/-- A node without its children. A program without definitions has no place. -/
structure NodeLabel where
  kind : NodeKind
  place? : Option Position
  note : NodeNote := .nothing
  type? : Option TypeId := none
  symbol? : Option SymbolId := none
deriving DecidableEq, Repr

/-- A tree of nodes. -/
inductive Outline where
  | node (label : NodeLabel) (children : List Outline)
deriving Repr

/-- One step of a walk. -/
structure Visit where
  entering : Bool
  label : NodeLabel
  isLast : Bool
deriving DecidableEq, Repr

namespace Outline

/-- A node without children. -/
def leaf (label : NodeLabel) : Outline := node label []

/-- The nodes from the root down, each before its children, with their depths. -/
def preorder (depth : Nat) : Outline → List (Nat × NodeLabel)
  | node label children => (depth, label) :: preorderList (depth + 1) children
where
  /-- The nodes of a list of trees. -/
  preorderList (depth : Nat) : List Outline → List (Nat × NodeLabel)
    | [] => []
    | t :: ts => t.preorder depth ++ preorderList depth ts

/-- The steps of a walk that looks into the kinds of node that `descend`
accepts. -/
def walk (descend : NodeKind → Bool) (isLast : Bool) : Outline → List Visit
  | node label children =>
      ⟨true, label, isLast⟩ ::
        ((if descend label.kind then walkList descend children else []) ++
          [⟨false, label, isLast⟩])
where
  /-- The steps of a walk over siblings, of which the final one is the last. -/
  walkList (descend : NodeKind → Bool) : List Outline → List Visit
    | [] => []
    | t :: ts => t.walk descend ts.isEmpty ++ walkList descend ts

end Outline

end ScriptFront
