import ScriptFront.Proofs.Grammar.Program
import ScriptFront.Proofs.Token.Spelling
import ScriptFront.Proofs.Tree.Tokens

/-!
# Printing programs

A tree is printed as a row of words, with a space between any two. An operand
stands in parentheses unless it is a literal or a name, so that no operator of the
text competes with another one for it.

Nothing but the texts of names and the spellings of floating point literals is taken
from the tokens of the tree. A tree can be printed if nothing in it has been resolved,
if its names and numbers can be written at all, and if no `else` of it would go to
another `if`.
-/
namespace ScriptFront

/-! ## Words of trees -/

def Token.nameWord (t : Token) : Word := ⟨.identifier, t.text⟩

/-- How a literal is written. A floating point number keeps the spelling of its
token. -/
def Literal.word (token : Token) : Literal → Word
  | int n => ⟨.int, toString n⟩
  | float _ => ⟨.float, token.text⟩
  | bool b => ⟨.bool, toString b⟩
  | string s => ⟨.string, s⟩

/-- The kind of the token that stands for the operator. -/
def UnaryOp.kind : UnaryOp → TokenKind
  | neg => .dash
  | not => .not

def BinaryOp.kind : BinaryOp → TokenKind
  | add => .plus
  | sub => .dash
  | mul => .star
  | div => .slash
  | mod => .percent
  | less => .less
  | greater => .greater
  | lessEquals => .lessEquals
  | greaterEquals => .greaterEquals
  | equal => .equals
  | unequal => .notEquals
  | and => .and
  | or => .or
  | xor => .xor
  | subscript => .openBracket
  | memberAccess => .dot

namespace Word

/-- Words between two others. -/
def enclosed (opening closing : TokenKind) (ws : List Word) : List Word :=
  ofKind opening :: (ws ++ [ofKind closing])

def inParens (ws : List Word) : List Word := enclosed .openParen .closeParen ws

/-- Lists of words, with commas between them. -/
def listed (wss : List (List Word)) : List Word := [ofKind .comma].intercalate wss

end Word

/-- The words of an operation from those of its operands. -/
def BinaryOp.words : BinaryOp → List Word → List Word → List Word
  | subscript, left, right => left ++ Word.enclosed .openBracket .closeBracket right
  | op, left, right => left ++ Word.ofKind op.kind :: right

namespace Expr

/-- The expression is a literal or a name. -/
def isLeaf : Expr → Bool
  | literal _ _ _ | ident _ => true
  | _ => false

/-- The words of an operand from those of the expression. -/
def operandWords (e : Expr) (ws : List Word) : List Word :=
  if e.isLeaf then ws else Word.inParens ws

/-- The words of an expression. -/
def words : Expr → List Word
  | literal value token _ => [value.word token]
  | ident i => [i.token.nameWord]
  | unary op operand _ _ => Word.ofKind op.kind :: operand.operandWords operand.words
  | binary op left right _ _ =>
      op.words (left.operandWords left.words) (right.operandWords right.words)
  | call callee args _ _ => callee.token.nameWord :: Word.inParens (Word.listed (wordsAll args))
where
  wordsAll : List Expr → List (List Word)
    | [] => []
    | e :: es => e.words :: wordsAll es

@[simp] theorem wordsAll_eq (es : List Expr) : words.wordsAll es = es.map words := by
  induction es with
  | nil => rfl
  | cons e es ih => rw [words.wordsAll, ih, List.map_cons]

end Expr

def TypeName.words (t : TypeName) : List Word :=
  t.token.nameWord ::
    if t.isArray then Word.enclosed .openBracket .closeBracket [] else []

/-- The words of the value that a variable begins with. -/
def Expr.initializerWords (e : Expr) : List Word := Word.ofKind .assignment :: e.words

namespace Stmt

/-- The words of a statement. -/
def words : Stmt → List Word
  | empty _ => [.ofKind .semicolon]
  | breakLoop _ => [.ofKind .breakWord, .ofKind .semicolon]
  | whileLoop condition body _ =>
      .ofKind .whileWord :: (Word.inParens condition.words ++ body.words)
  | ifThen condition thenBranch _ =>
      .ofKind .ifWord :: (Word.inParens condition.words ++ thenBranch.words)
  | ifThenElse condition thenBranch elseBranch _ =>
      .ofKind .ifWord :: (Word.inParens condition.words ++
        (thenBranch.words ++ .ofKind .elseWord :: elseBranch.words))
  | block statements _ => Word.enclosed .openCurly .closeCurly (wordsAll statements)
  | assign target value =>
      target.token.nameWord :: .ofKind .assignment :: (value.words ++ [.ofKind .semicolon])
  | returnValue value? _ =>
      .ofKind .returnWord :: ((value?.map Expr.words).getD [] ++ [.ofKind .semicolon])
  | varDecl type name initializer? _ =>
      type.words ++ name.nameWord ::
        ((initializer?.map Expr.initializerWords).getD [] ++ [.ofKind .semicolon])
  | call callee args _ =>
      callee.token.nameWord ::
        (Word.inParens (Word.listed (args.map Expr.words)) ++ [.ofKind .semicolon])
where
  wordsAll : List Stmt → List Word
    | [] => []
    | s :: ss => s.words ++ wordsAll ss

@[simp] theorem wordsAll_eq (ss : List Stmt) : words.wordsAll ss = ss.flatMap words := by
  induction ss with
  | nil => rfl
  | cons s ss ih => rw [words.wordsAll, ih, List.flatMap_cons]

end Stmt

def Param.words (p : Param) : List Word := p.type.words ++ [p.name.nameWord]

def FnDef.words (f : FnDef) : List Word :=
  f.returnType.words ++ f.name.nameWord ::
    (Word.inParens (Word.listed (f.params.map Param.words)) ++
      Word.enclosed .openCurly .closeCurly (f.body.flatMap Stmt.words))

def GlobalVar.words (v : GlobalVar) : List Word :=
  v.type.words ++ [v.name.nameWord, .ofKind .semicolon]

def Global.words : Global → List Word
  | function f => f.words
  | var v => v.words

def Program.words (p : Program) : List Word := p.globals.flatMap Global.words

/-- The text of a program: its words, with spaces between them. -/
def Program.text (p : Program) : String := String.ofList (Word.lineOf p.words)

/-! ## Trees that can be printed -/

/-- The text of the token is a word, and not a reserved one. -/
structure Token.Names (t : Token) : Prop where
  starts : ∃ c ∈ t.text.toList.head?, Pattern.isWordStart c
  continues : ∀ c ∈ t.text.toList, Pattern.isWordPart c
  not_reserved : t.text ∉ TokenKind.reserved.map Prod.fst

instance (t : Token) : Decidable t.Names :=
  decidable_of_iff (t.text.toList.head?.any Pattern.isWordStart ∧
      t.text.toList.all Pattern.isWordPart ∧ t.text ∉ TokenKind.reserved.map Prod.fst)
    ⟨fun ⟨hs, hc, hr⟩ => ⟨(Option.any_eq_true _ _).mp hs, List.all_eq_true.mp hc, hr⟩,
      fun ⟨hs, hc, hr⟩ => ⟨(Option.any_eq_true _ _).mpr hs, List.all_eq_true.mpr hc, hr⟩⟩

/-- The literal can be written: an integer is not negative and in range, and a
floating point number is spelled with digits on both sides of a point. -/
inductive Literal.Printable (t : Token) : Literal → Prop
  | int {n : ℕ} : n < Numeral.limit → Printable t (.int n)
  | float {x : Numeral.Binary64} {whole fraction : List Char} :
      Numeral.IsDigits whole → Numeral.IsDigits fraction →
      t.text.toList = whole ++ '.' :: fraction →
      Numeral.Binary64.ofText? t.text.toList = some x → Printable t (.float x)
  | bool {b : Bool} : Printable t (.bool b)
  | string {s : String} : Printable t (.string s)

/-- The expression can be printed. A member is a name. -/
inductive Expr.Printable : Expr → Prop
  | literal {value : Literal} {t : Token} :
      value.Printable t → Printable (.literal value t none)
  | ident {t : Token} : t.Names → Printable (.ident ⟨t, none, none⟩)
  | unary {op : UnaryOp} {operand : Expr} {t : Token} :
      Printable operand → Printable (.unary op operand t none)
  | binary {op : BinaryOp} {left right : Expr} {t : Token} : op ≠ .memberAccess →
      Printable left → Printable right → Printable (.binary op left right t none)
  | member {left : Expr} {name dot : Token} : Printable left → name.Names →
      Printable (.binary .memberAccess left (.ident ⟨name, none, none⟩) dot none)
  | call {callee openParen : Token} {args : List Expr} :
      callee.Names → (∀ e ∈ args, Printable e) →
      Printable (.call ⟨callee, none, none⟩ args openParen none)

structure TypeName.Printable (t : TypeName) : Prop where
  names : t.token.Names
  unresolved : t.resolved? = none

/-- The statement can be printed. No branch in front of an `else` ends in a shorter
`if`. -/
inductive Stmt.Printable : Stmt → Prop
  | empty {t : Token} : Printable (.empty t)
  | breakLoop {t : Token} : Printable (.breakLoop t)
  | whileLoop {condition : Expr} {body : Stmt} {t : Token} :
      condition.Printable → Printable body → Printable (.whileLoop condition body t)
  | ifThen {condition : Expr} {thenBranch : Stmt} {t : Token} :
      condition.Printable → Printable thenBranch → Printable (.ifThen condition thenBranch t)
  | ifThenElse {condition : Expr} {thenBranch elseBranch : Stmt} {t : Token} :
      condition.Printable → Printable thenBranch → thenBranch.endsOpen = false →
      Printable elseBranch → Printable (.ifThenElse condition thenBranch elseBranch t)
  | block {statements : List Stmt} {openBrace : Token} :
      (∀ s ∈ statements, Printable s) → Printable (.block statements openBrace)
  | assign {target : Token} {value : Expr} :
      target.Names → value.Printable → Printable (.assign ⟨target, none, none⟩ value)
  | returnValue {value? : Option Expr} {t : Token} :
      (∀ e ∈ value?, e.Printable) → Printable (.returnValue value? t)
  | varDecl {type : TypeName} {name : Token} {initializer? : Option Expr} :
      type.Printable → name.Names → (∀ e ∈ initializer?, e.Printable) →
      Printable (.varDecl type name initializer? none)
  | call {callee openParen : Token} {args : List Expr} :
      callee.Names → (∀ e ∈ args, e.Printable) →
      Printable (.call ⟨callee, none, none⟩ args openParen)

structure Param.Printable (p : Param) : Prop where
  type : p.type.Printable
  names : p.name.Names
  unresolved : p.symbol? = none

structure FnDef.Printable (f : FnDef) : Prop where
  type : f.returnType.Printable
  names : f.name.Names
  params : ∀ p ∈ f.params, p.Printable
  body : ∀ s ∈ f.body, s.Printable
  unresolved : f.symbol? = none

structure GlobalVar.Printable (v : GlobalVar) : Prop where
  type : v.type.Printable
  names : v.name.Names
  unresolved : v.symbol? = none

inductive Global.Printable : Global → Prop
  | function {f : FnDef} : f.Printable → Printable (.function f)
  | var {v : GlobalVar} : v.Printable → Printable (.var v)

def Program.Printable (p : Program) : Prop := ∀ g ∈ p.globals, g.Printable

/-! ## Trees without tokens -/

/-- Of a name, its text. -/
def Token.bareName (t : Token) : Token := ⟨.identifier, t.text, Position.start⟩

/-- Of a token that is no name, nothing. -/
def Token.bare (_ : Token) : Token := TokenKind.endOfInput.sample

abbrev Expr.bare (e : Expr) : Expr := e.mapTokens Token.bareName Token.bare

abbrev Stmt.bare (s : Stmt) : Stmt := s.mapTokens Token.bareName Token.bare

/-- The program without its tokens: two programs are the same without tokens if they
differ in nothing but tokens, and their names have the same texts. -/
abbrev Program.bare (p : Program) : Program := p.mapTokens Token.bareName Token.bare

end ScriptFront
