import ScriptFront.Program.Basic

/-!
# Removing statements without effect

Cleanup deletes from the statement lists of blocks every empty statement and
every block that is empty, or becomes empty by cleanup. A loop body or a branch
that is not an item of such a list stays, whatever it is. The number of deleted
statements is counted.
-/
namespace ScriptFront

/-- A tree after cleanup, and the number of statements that are gone. -/
structure Cleaned (α : Type) where
  value : α
  removed : Nat
deriving Repr

namespace Cleaned

/-- Cleanup of a part, seen as cleanup of the whole. -/
def map (f : α → β) (c : Cleaned α) : Cleaned β :=
  ⟨f c.value, c.removed⟩

/-- Cleanup of two parts. -/
def map₂ (f : α → β → γ) (a : Cleaned α) (b : Cleaned β) : Cleaned γ :=
  ⟨f a.value b.value, a.removed + b.removed⟩

end Cleaned

namespace Stmt

/-- Puts a clean statement in front of clean ones, unless it is empty. -/
def consUnlessEmpty (s : Cleaned Stmt) (rest : Cleaned (List Stmt)) : Cleaned (List Stmt) :=
  if s.value.isEmpty then ⟨rest.value, s.removed + 1 + rest.removed⟩
  else ⟨s.value :: rest.value, s.removed + rest.removed⟩

/-- The statement after cleanup inside of it. -/
def cleanup : Stmt → Cleaned Stmt
  | whileLoop condition body token => body.cleanup.map (whileLoop condition · token)
  | ifThen condition thenBranch token => thenBranch.cleanup.map (ifThen condition · token)
  | ifThenElse condition thenBranch elseBranch token =>
      thenBranch.cleanup.map₂ (ifThenElse condition · · token) elseBranch.cleanup
  | block statements openBrace => (cleanupList statements).map (block · openBrace)
  | s => ⟨s, 0⟩
where
  cleanupList : List Stmt → Cleaned (List Stmt)
    | [] => ⟨[], 0⟩
    | s :: rest => consUnlessEmpty s.cleanup (cleanupList rest)

end Stmt

def Global.cleanup : Global → Cleaned Global
  | function f => (Stmt.cleanup.cleanupList f.body).map fun body => function { f with body }
  | var v => ⟨var v, 0⟩

def Global.cleanupAll : List Global → Cleaned (List Global)
  | [] => ⟨[], 0⟩
  | g :: gs => g.cleanup.map₂ (· :: ·) (cleanupAll gs)

def Program.cleanup (p : Program) : Cleaned Program :=
  (Global.cleanupAll p.globals).map Program.mk

end ScriptFront
