import ScriptFront.Proofs.Program.Resolved

/-!
# Uses of names as values

Where a program uses names as values or assigns to them, in the order of the text. The
scopes around each place are found by the names of the function and of the blocks. Cleanup
leaves all uses as they are.
-/
namespace ScriptFront

/-- A use of a name, with the scopes around it from the innermost one outwards, and the
name of the variable in whose initializer it is. -/
structure Use where
  ident : Ident
  scopes : List ScopeId
  inside? : Option Token

/-- The scopes around a place that is in the scope of the name inside of the first one.
There are none if that scope is missing. -/
def SymbolTable.within (t : SymbolTable) (scopes : List ScopeId) (name : String) : List ScopeId :=
  match scopes with
  | [] => []
  | scope :: _ =>
    match t.subScope? scope name with
    | none => []
    | some inner => inner :: scopes

/-- The names that are used as values in an expression. The name of a called function
is none of them, nor is that of a member. -/
def Expr.values : Expr → List Ident
  | literal _ _ _ => []
  | ident i => [i]
  | unary _ operand _ _ => operand.values
  | binary op left right _ _ =>
      if op = .memberAccess then left.values else left.values ++ right.values
  | call _ args _ _ => valuesAll args
where
  valuesAll : List Expr → List Ident
    | [] => []
    | e :: es => e.values ++ valuesAll es

def Expr.uses (scopes : List ScopeId) (inside? : Option Token) (e : Expr) : List Use :=
  e.values.map (⟨·, scopes, inside?⟩)

/-- The uses in a statement in the first of the scopes. -/
def Stmt.uses (t : SymbolTable) (scopes : List ScopeId) : Stmt → List Use
  | empty _ | breakLoop _ => []
  | whileLoop condition body _ => condition.uses scopes none ++ body.uses t scopes
  | ifThen condition thenBranch _ => condition.uses scopes none ++ thenBranch.uses t scopes
  | ifThenElse condition thenBranch elseBranch _ =>
      condition.uses scopes none ++ (thenBranch.uses t scopes ++ elseBranch.uses t scopes)
  | block statements openBrace => usesAll (t.within scopes (blockScopeName openBrace)) statements
  | assign target value => ⟨target, scopes, none⟩ :: value.uses scopes none
  | returnValue value? _ => value?.toList.flatMap (Expr.uses scopes none)
  | varDecl _ name initializer? _ => initializer?.toList.flatMap (Expr.uses scopes (some name))
  | call _ args _ => args.flatMap (Expr.uses scopes none)
where
  usesAll (scopes : List ScopeId) : List Stmt → List Use
    | [] => []
    | s :: ss => s.uses t scopes ++ usesAll scopes ss

def Global.uses (t : SymbolTable) : Global → List Use
  | function f =>
      (Stmt.block f.body f.openBrace).uses t (t.within [.global] f.name.text)
  | var _ => []

def Program.uses (t : SymbolTable) (p : Program) : List Use := p.globals.flatMap (Global.uses t)

variable {t : SymbolTable} {scope inner : ScopeId} {scopes : List ScopeId}

theorem SymbolTable.within_of_subScope? {n : String} (h : t.subScope? scope n = some inner) :
    t.within (scope :: scopes) n = inner :: scope :: scopes := by
  rw [within, h]

/-! ## Cleanup -/

theorem Stmt.uses_of_isEmpty {s : Stmt} (h : s.isEmpty) : s.uses t scopes = [] := by
  cases s with
  | empty => rfl
  | block statements openBrace =>
      obtain rfl := List.isEmpty_iff.mp h
      rfl
  | breakLoop | whileLoop | ifThen | ifThenElse | assign | returnValue | varDecl | call => cases h

theorem Stmt.usesAll_cleanupList {ss : List Stmt}
    (ih : ∀ s ∈ ss, s.cleanup.value.uses t scopes = s.uses t scopes) :
    uses.usesAll t scopes (cleanup.cleanupList ss).value = uses.usesAll t scopes ss := by
  induction ss with
  | nil => rfl
  | cons s ss ihs =>
      have hrest := ihs fun s hs => ih s (by simp [hs])
      unfold cleanup.cleanupList consUnlessEmpty
      split_ifs with hempty
      · rw [uses.usesAll, ← ih s (by simp), uses_of_isEmpty hempty, List.nil_append]
        exact hrest
      · rw [uses.usesAll, uses.usesAll, ih s (by simp), hrest]

@[simp] theorem Stmt.uses_cleanup (s : Stmt) : s.cleanup.value.uses t scopes = s.uses t scopes := by
  induction s using tree_induction generalizing scopes with
  | empty | breakLoop | assign | returnValue | varDecl | call => rfl
  | whileLoop condition body token ih => exact congrArg (condition.uses scopes none ++ ·) ih
  | ifThen condition thenBranch token ih => exact congrArg (condition.uses scopes none ++ ·) ih
  | ifThenElse condition thenBranch elseBranch token ihthen ihelse =>
      exact congrArg (condition.uses scopes none ++ ·) (congrArg₂ (· ++ ·) ihthen ihelse)
  | block statements openBrace ih => exact usesAll_cleanupList fun s hs => ih s hs

@[simp] theorem Global.uses_cleanup (g : Global) : g.cleanup.value.uses t = g.uses t := by
  cases g with
  | var => rfl
  | function f => exact Stmt.usesAll_cleanupList fun s _ => s.uses_cleanup

@[simp] theorem Program.uses_cleanup (p : Program) : p.cleanup.value.uses t = p.uses t := by
  change (Global.cleanupAll p.globals).value.flatMap (Global.uses t) = _
  unfold uses
  induction p.globals with
  | nil => rfl
  | cons g gs ih =>
      rw [List.flatMap_cons, ← ih, ← g.uses_cleanup]
      rfl

end ScriptFront
