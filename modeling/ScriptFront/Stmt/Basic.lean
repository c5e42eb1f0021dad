import ScriptFront.Expr.Basic

/-!
# Statements

The tree of a statement. Every statement keeps the token that begins it; an
assignment and a call begin with a name, and a declaration with its type.
-/
namespace ScriptFront

/-- A type in use: a name, and whether it is an array of that. -/
structure TypeName where
  token : Token
  isArray : Bool
  resolved? : Option TypeId := none
deriving DecidableEq, Repr

/-- The name under which the type is registered. -/
def TypeName.fullName (t : TypeName) : String :=
  if t.isArray then t.token.text ++ "[]" else t.token.text

inductive Stmt where
  | empty (token : Token)
  | breakLoop (token : Token)
  | whileLoop (condition : Expr) (body : Stmt) (token : Token)
  | ifThen (condition : Expr) (thenBranch : Stmt) (token : Token)
  | ifThenElse (condition : Expr) (thenBranch elseBranch : Stmt) (token : Token)
  | block (statements : List Stmt) (openBrace : Token)
  | assign (target : Ident) (value : Expr)
  | returnValue (value? : Option Expr) (token : Token)
  | varDecl (type : TypeName) (name : Token) (initializer? : Option Expr)
      (symbol? : Option SymbolId)
  | call (callee : Ident) (args : List Expr) (openParen : Token)
deriving Repr

namespace Stmt

/-- The token that begins the statement. -/
def token : Stmt → Token
  | empty token | breakLoop token => token
  | whileLoop _ _ token | ifThen _ _ token | ifThenElse _ _ _ token => token
  | block _ openBrace => openBrace
  | assign target _ => target.token
  | returnValue _ token => token
  | varDecl type _ _ _ => type.token
  | call callee _ _ => callee.token

/-- The name of the form of the statement. -/
def formName : Stmt → String
  | empty _ => "Empty"
  | breakLoop _ => "Break"
  | whileLoop _ _ _ => "While"
  | ifThen _ _ _ => "IfThen"
  | ifThenElse _ _ _ _ => "IfThenElse"
  | block _ _ => "Block"
  | assign _ _ => "Assign"
  | returnValue _ _ => "Return"
  | varDecl _ _ _ _ => "VarDecl"
  | call _ _ _ => "Call"

/-- The statement does nothing and declares nothing: a lone semicolon, or a
block with no statement in it. -/
def isEmpty : Stmt → Bool
  | empty _ => true
  | block statements _ => statements.isEmpty
  | _ => false

/-- The name of the scope that a block opens. Two blocks of one text have
different names, because they begin at different places. -/
def blockScopeName (openBrace : Token) : String :=
  "block" ++ openBrace.position.text

end Stmt

end ScriptFront
