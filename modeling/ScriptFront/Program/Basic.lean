import ScriptFront.Stmt.Basic

/-!
# Programs

A program is a list of function definitions and global variables.
-/
namespace ScriptFront

structure Param where
  type : TypeName
  name : Token
  symbol? : Option SymbolId := none
deriving DecidableEq, Repr

/-- A function definition. The parameters keep the parenthesis that opens them,
and the body keeps its brace. -/
structure FnDef where
  returnType : TypeName
  name : Token
  params : List Param
  openParen : Token
  body : List Stmt
  openBrace : Token
  symbol? : Option SymbolId := none
deriving Repr

structure GlobalVar where
  type : TypeName
  name : Token
  symbol? : Option SymbolId := none
deriving DecidableEq, Repr

/-- What a program consists of. -/
inductive Global where
  | function (definition : FnDef)
  | var (definition : GlobalVar)
deriving Repr

/-- The token that begins the definition: its type. -/
def Global.token : Global → Token
  | function f => f.returnType.token
  | var v => v.type.token

structure Program where
  globals : List Global
deriving Repr

end ScriptFront
