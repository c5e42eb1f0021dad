import Mathlib.Data.List.Forall2
import ScriptFront.Expr.Typing
import ScriptFront.Program.Basic
import ScriptFront.SymbolTable.Lookup

/-!
# Typing rules

When an expression has a type and when a statement is well typed, given the
registered types and the declared symbols. The rules read the tree as it is
written: what an analysis has entered into it before has no part in them.
-/
namespace ScriptFront

/-- What the type of an expression depends on. Names are looked up from the scope,
and the variable that is being initialized, if there is one, cannot be used. -/
structure TypingContext where
  types : TypeTable
  symbols : SymbolTable
  scope : ScopeId
  initializing? : Option SymbolId := none

namespace TypingContext

variable (Γ : TypingContext)

/-- The type is registered under the name. -/
def Named (name : String) (t : TypeId) : Prop := Γ.types.get? name = some t

/-- The type is one of the two types of numbers. -/
def Numeric (t : TypeId) : Prop := Γ.Named "int" t ∨ Γ.Named "float" t

/-- The name stands for the symbol where symbols of a certain kind are preferred. -/
structure Denotes (preference : Preference) (name : String) (id : SymbolId)
    (symbol : Symbol) : Prop where
  found : Γ.symbols.lookup? name preference Γ.scope = some id
  entry : Γ.symbols.symbol? id = some symbol

end TypingContext

/-- The operator takes an operand of the type, and keeps the type. -/
inductive UnaryOp.Takes (Γ : TypingContext) : UnaryOp → TypeId → Prop
  | neg {t : TypeId} : Γ.Numeric t → Takes Γ .neg t
  | not {t : TypeId} : Γ.Named "bool" t → Takes Γ .not t

/-- The operator between operands of two types yields a third. -/
inductive BinaryOp.Yields (Γ : TypingContext) : BinaryOp → TypeId → TypeId → TypeId → Prop
  | equality {op : BinaryOp} {t b : TypeId} :
      op ∈ [.equal, .unequal] → Γ.Named "bool" b → Yields Γ op t t b
  | ordering {op : BinaryOp} {t b : TypeId} :
      op ∈ [.less, .lessEquals, .greater, .greaterEquals] → Γ.Numeric t → Γ.Named "bool" b →
      Yields Γ op t t b
  | connective {op : BinaryOp} {b : TypeId} :
      op ∈ [.and, .or, .xor] → Γ.Named "bool" b → Yields Γ op b b b
  | concatenation {t u s : TypeId} :
      Γ.Named "string" s → t = s ∨ u = s → Yields Γ .add t u s
  | arithmetic {op : BinaryOp} {t : TypeId} :
      op ∈ [.add, .sub, .mul, .div] → Γ.Numeric t → Yields Γ op t t t
  | remainder {t : TypeId} : Γ.Named "int" t → Yields Γ .mod t t t
  | subscript {array index element : TypeId} :
      Γ.types.element? array = some element → Γ.Named "int" index →
      Yields Γ .subscript array index element

/-- The expression has the type. Nothing has members. -/
inductive HasType (Γ : TypingContext) : Expr → TypeId → Prop
  | literal {value : Literal} {token : Token} {type? : Option TypeId} {t : TypeId} :
      Γ.Named value.typeName t → HasType Γ (.literal value token type?) t
  | name {i : Ident} {id : SymbolId} {symbol : Symbol} {t : TypeId} :
      Γ.Denotes .value i.name id symbol → symbol.kind ≠ .function →
      (symbol.kind ∈ [.localVariable, .globalVariable] →
        ¬ i.token.position < symbol.declaration.position) →
      Γ.initializing? ≠ some id → symbol.type? = some t → HasType Γ (.ident i) t
  | unary {op : UnaryOp} {operand : Expr} {token : Token} {type? : Option TypeId}
      {t : TypeId} :
      HasType Γ operand t → op.Takes Γ t → HasType Γ (.unary op operand token type?) t
  | binary {op : BinaryOp} {left right : Expr} {token : Token} {type? : Option TypeId}
      {t u v : TypeId} :
      HasType Γ left t → HasType Γ right u → op.Yields Γ t u v →
      HasType Γ (.binary op left right token type?) v
  | call {callee : Ident} {args : List Expr} {openParen : Token} {type? : Option TypeId}
      {id : SymbolId} {function : Symbol} {ts : List TypeId} {t : TypeId} :
      Γ.Denotes .function callee.name id function → function.kind = .function →
      List.Forall₂ (HasType Γ) args ts → function.params.map Prod.snd = ts.map some →
      function.type? = some t → HasType Γ (.call callee args openParen type?) t

/-- The statement is well typed in a scope of a function with the result type
`result`. A block has a scope of its own. -/
inductive Stmt.WellTyped (types : TypeTable) (symbols : SymbolTable) (result : TypeId) :
    ScopeId → Stmt → Prop
  | empty {scope : ScopeId} {token : Token} :
      WellTyped types symbols result scope (.empty token)
  | breakLoop {scope : ScopeId} {token : Token} :
      WellTyped types symbols result scope (.breakLoop token)
  | whileLoop {scope : ScopeId} {condition : Expr} {body : Stmt} {token : Token}
      {b : TypeId} :
      types.get? "bool" = some b → HasType { types, symbols, scope } condition b →
      WellTyped types symbols result scope body →
      WellTyped types symbols result scope (.whileLoop condition body token)
  | ifThen {scope : ScopeId} {condition : Expr} {thenBranch : Stmt} {token : Token}
      {b : TypeId} :
      types.get? "bool" = some b → HasType { types, symbols, scope } condition b →
      WellTyped types symbols result scope thenBranch →
      WellTyped types symbols result scope (.ifThen condition thenBranch token)
  | ifThenElse {scope : ScopeId} {condition : Expr} {thenBranch elseBranch : Stmt}
      {token : Token} {b : TypeId} :
      types.get? "bool" = some b → HasType { types, symbols, scope } condition b →
      WellTyped types symbols result scope thenBranch →
      WellTyped types symbols result scope elseBranch →
      WellTyped types symbols result scope
        (.ifThenElse condition thenBranch elseBranch token)
  | block {scope inner : ScopeId} {statements : List Stmt} {openBrace : Token} :
      symbols.subScope? scope (blockScopeName openBrace) = some inner →
      (∀ st ∈ statements, WellTyped types symbols result inner st) →
      WellTyped types symbols result scope (.block statements openBrace)
  | assign {scope : ScopeId} {target : Ident} {value : Expr} {t : TypeId} :
      HasType { types, symbols, scope } (.ident target) t →
      HasType { types, symbols, scope } value t →
      WellTyped types symbols result scope (.assign target value)
  | returnNothing {scope : ScopeId} {token : Token} :
      types.get? "void" = some result →
      WellTyped types symbols result scope (.returnValue none token)
  | returnValue {scope : ScopeId} {value : Expr} {token : Token} :
      HasType { types, symbols, scope } value result →
      WellTyped types symbols result scope (.returnValue (some value) token)
  | declaration {scope : ScopeId} {type : TypeName} {name : Token}
      {symbol? : Option SymbolId} :
      WellTyped types symbols result scope (.varDecl type name none symbol?)
  | initialization {scope : ScopeId} {type : TypeName} {name : Token} {initializer : Expr}
      {symbol? : Option SymbolId} {id : SymbolId} {t : TypeId} :
      symbols.local? scope name.text = some id → types.get? type.fullName = some t →
      HasType { types, symbols, scope, initializing? := some id } initializer t →
      WellTyped types symbols result scope (.varDecl type name (some initializer) symbol?)
  | call {scope : ScopeId} {callee : Ident} {args : List Expr} {openParen : Token}
      {t : TypeId} :
      HasType { types, symbols, scope } (.call callee args openParen none) t →
      WellTyped types symbols result scope (.call callee args openParen)

/-- The statements of the function are well typed. The scope of its body lies in
the scope of the function, and that in the global scope. -/
inductive FnDef.WellTyped (types : TypeTable) (symbols : SymbolTable) (f : FnDef) : Prop
  | intro {result : TypeId} {outer inner : ScopeId} :
      types.get? f.returnType.fullName = some result →
      symbols.subScope? .global f.name.text = some outer →
      symbols.subScope? outer (Stmt.blockScopeName f.openBrace) = some inner →
      (∀ st ∈ f.body, st.WellTyped types symbols result inner) → WellTyped types symbols f

def Program.WellTyped (types : TypeTable) (symbols : SymbolTable) (p : Program) : Prop :=
  ∀ f, Global.function f ∈ p.globals → f.WellTyped types symbols

end ScriptFront
