import ScriptFront.Program.Parser
import ScriptFront.Proofs.Parsing.Reading

/-!
# The productions in uniform shape

Arguments and parameters are lists of one kind, reading a name in use is reading
its token, and what an `if` reads is named apart from the looks at the next
token that decide whether it is read.
-/
namespace ScriptFront.Parser

variable {α β : Type}

def nextItem (production : String) (item : Parser α) : Parser α :=
  attempt production do
    let _ ← accept .comma
    item

/-- Reads items and the commas between them. -/
def separated (production : String) (item : Parser α) : Parser (List α) :=
  attempt production do
    let first ← item
    let rest ← many (nextItem production item)
    return first :: rest

/-- Reads items and the commas between them. No item is a match too. -/
def listed (production : String) (item : Parser α) : Parser (List α) := do
  let items? ← optional (separated production item)
  return items?.getD []

theorem argumentList_eq : argumentList = listed "argument list" expression? := rfl

theorem paramList_eq : paramList = listed "parameter list" param := rfl

def brackets : Parser Token := do
  let _ ← accept .openBracket
  accept .closeBracket

theorem typeName_eq : typeName = (accept .identifier >>= fun token =>
    production >>= fun production => optional (attempt production brackets) >>= fun brackets? =>
      Pure.pure ⟨token, brackets?.isSome, none⟩) := rfl

def otherBranch (statement : Parser Stmt) : Parser Stmt :=
  attempt "if-else statement" do
    let _ ← accept .elseWord
    committed statement

theorem elseBranch?_eq (statement : Parser Stmt) :
    elseBranch? statement = (currentKind >>= fun kind =>
      if kind = .elseWord then
        committed (otherBranch statement) >>= fun branch => Pure.pure (some branch)
      else Pure.pure none) := rfl

def ifStatement (statement : Parser Stmt) : Parser Stmt :=
  attempt "if statement" do
    let token ← accept .ifWord
    let _ ← accept .openParen
    committed do
      let condition ← expression?
      let _ ← accept .closeParen
      let thenBranch ← statement
      match ← elseBranch? statement with
      | none => return .ifThen condition thenBranch token
      | some other => return .ifThenElse condition thenBranch other token

theorem statementOf_ifThen_eq (statement : Parser Stmt) :
    statementOf statement .ifThen = (currentKind >>= fun kind =>
      if kind = .ifWord then ifStatement statement else noMatch) := rfl

theorem ident_bind (f : Ident → Parser α) :
    (ident >>= f) = (accept .identifier >>= fun t => f ⟨t, none, none⟩) := by
  funext s
  rw [ident, bind_apply, bind_apply, bind_apply]
  cases accept .identifier s with
  | mk o t => cases o <;> rfl

end ScriptFront.Parser
