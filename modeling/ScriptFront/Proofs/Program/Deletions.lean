import Mathlib
import ScriptFront.Program.Cleanup
import ScriptFront.Proofs.Tree.Induction

/-!
# Cleanup as a normal form

One deletion takes a statement without effect out of the list of a block: an empty
statement, or a block that has no statements. A program is tidy if no further deletion is
possible. Whatever is deleted first, the deletions of a program end in the same tidy
program after the same number of them, and this program and this number are the result of
cleanup.
-/
namespace ScriptFront

variable {α β γ : Type}

/-- So many steps of a relation lead from one to the other. -/
inductive Iterated (R : α → α → Prop) : ℕ → α → α → Prop
  | none {a : α} : Iterated R 0 a a
  | cons {n : ℕ} {a b c : α} : R a b → Iterated R n b c → Iterated R (n + 1) a c

namespace Iterated

variable {R : α → α → Prop} {S : β → β → Prop} {m n : ℕ} {a b c : α}

theorem trans (h : Iterated R m a b) (h' : Iterated R n b c) : Iterated R (m + n) a c := by
  induction h with
  | none => rwa [Nat.zero_add]
  | cons hstep _ ih =>
      rw [Nat.add_right_comm]
      exact .cons hstep (ih h')

theorem map (f : α → β) (hf : ∀ {a b}, R a b → S (f a) (f b)) (h : Iterated R n a b) :
    Iterated S n (f a) (f b) := by
  induction h with
  | none => exact .none
  | cons hstep _ ih => exact .cons (hf hstep) ih

theorem eq_add (f : α → ℕ) (hf : ∀ {a b}, R a b → f a = f b + 1) (h : Iterated R n a b) :
    f a = f b + n := by
  induction h with
  | none => rfl
  | cons hstep _ ih => rw [hf hstep, ih, Nat.add_assoc]

end Iterated

/-! ## Tidy programs -/

/-- The statement and all statements inside of it. -/
def Stmt.statements (s : Stmt) : List Stmt :=
  match s with
  | whileLoop _ body _ => s :: body.statements
  | ifThen _ thenBranch _ => s :: thenBranch.statements
  | ifThenElse _ thenBranch elseBranch _ => s :: (thenBranch.statements ++ elseBranch.statements)
  | block items _ => s :: statementsAll items
  | _ => [s]
where
  statementsAll : List Stmt → List Stmt
    | [] => []
    | s :: ss => s.statements ++ statementsAll ss

theorem Stmt.statementsAll_eq (ss : List Stmt) :
    statements.statementsAll ss = ss.flatMap statements := by
  induction ss with
  | nil => rfl
  | cons s ss ih => rw [statements.statementsAll, ih, List.flatMap_cons]

/-- The statements in a definition. The body of a function is a block. -/
def Global.statements : Global → List Stmt
  | function f => (Stmt.block f.body f.openBrace).statements
  | var _ => []

def Program.statements (p : Program) : List Stmt := p.globals.flatMap Global.statements

/-- If the statement is a block, no empty statement and no empty block is in its list. -/
def Stmt.NoEmptyItem : Stmt → Prop
  | block items _ => ∀ s ∈ items, ¬ s.isEmpty
  | _ => True

/-- Nothing can be deleted from the list of any of the blocks. -/
def Tidy (nodes : List Stmt) : Prop := ∀ s ∈ nodes, s.NoEmptyItem

theorem tidy_cons {s : Stmt} {nodes : List Stmt} :
    Tidy (s :: nodes) ↔ s.NoEmptyItem ∧ Tidy nodes := List.forall_mem_cons

theorem tidy_append {nodes nodes' : List Stmt} :
    Tidy (nodes ++ nodes') ↔ Tidy nodes ∧ Tidy nodes' := List.forall_mem_append

theorem tidy_block {items : List Stmt} {openBrace : Token} :
    Tidy (Stmt.block items openBrace).statements ↔
      ∀ s ∈ items, ¬ s.isEmpty ∧ Tidy s.statements := by
  rw [Stmt.statements, tidy_cons, Stmt.statementsAll_eq, Tidy, List.forall_mem_flatMap]
  exact forall₂_and.symm

/-! ## Deletions -/

/-- One empty statement, or one block without statements, is deleted from the list of a block. -/
inductive Stmt.Deletes : Stmt → Stmt → Prop
  | item {before after : List Stmt} {s : Stmt} {openBrace : Token} :
      s.isEmpty →
      Deletes (.block (before ++ s :: after) openBrace) (.block (before ++ after) openBrace)
  | inside {before after : List Stmt} {s s' : Stmt} {openBrace : Token} : Deletes s s' →
      Deletes (.block (before ++ s :: after) openBrace) (.block (before ++ s' :: after) openBrace)
  | body {condition : Expr} {s s' : Stmt} {token : Token} : Deletes s s' →
      Deletes (.whileLoop condition s token) (.whileLoop condition s' token)
  | onlyBranch {condition : Expr} {s s' : Stmt} {token : Token} : Deletes s s' →
      Deletes (.ifThen condition s token) (.ifThen condition s' token)
  | thenBranch {condition : Expr} {s s' other : Stmt} {token : Token} : Deletes s s' →
      Deletes (.ifThenElse condition s other token) (.ifThenElse condition s' other token)
  | elseBranch {condition : Expr} {s s' other : Stmt} {token : Token} : Deletes s s' →
      Deletes (.ifThenElse condition other s token) (.ifThenElse condition other s' token)

inductive Global.Deletes : Global → Global → Prop
  | body {f : FnDef} {body : List Stmt} :
      Stmt.Deletes (.block f.body f.openBrace) (.block body f.openBrace) →
      Deletes (.function f) (.function { f with body })

inductive Program.Deletes : Program → Program → Prop
  | inside {before after : List Global} {g g' : Global} : g.Deletes g' →
      Deletes ⟨before ++ g :: after⟩ ⟨before ++ g' :: after⟩

/-! ## The lists of a clean program -/

namespace Cleaned

/-- The same, where more statements are gone. -/
def adding (n : ℕ) (c : Cleaned α) : Cleaned α := ⟨c.value, c.removed + n⟩

variable {n : ℕ}

@[simp] theorem map_adding (f : α → β) (c : Cleaned α) :
    (c.adding n).map f = (c.map f).adding n := rfl

@[simp] theorem map₂_adding_left (f : α → β → γ) (a : Cleaned α) (b : Cleaned β) :
    (a.adding n).map₂ f b = (a.map₂ f b).adding n := by
  simp [map₂, adding, Nat.add_right_comm]

@[simp] theorem map₂_adding_right (f : α → β → γ) (a : Cleaned α) (b : Cleaned β) :
    a.map₂ f (b.adding n) = (a.map₂ f b).adding n := by
  simp [map₂, adding, Nat.add_assoc]

end Cleaned

open Stmt.cleanup (cleanupList)

namespace Stmt

/-- What is left of a list is what is left of its items, in their order, without those of which
nothing is left. -/
theorem cleanupList_eq (ss : List Stmt) :
    cleanupList ss = ⟨(ss.map (·.cleanup.value)).filter (!·.isEmpty),
      (ss.map (·.cleanup.removed)).sum + (ss.map (·.cleanup.value)).countP (·.isEmpty)⟩ := by
  induction ss with
  | nil => rfl
  | cons s ss ih =>
      rw [cleanupList, ih, consUnlessEmpty]
      split_ifs with h
      · simp [h]
        omega
      · simp [h, Nat.add_assoc]

theorem cleanupList_append (ss ss' : List Stmt) :
    cleanupList (ss ++ ss') = (cleanupList ss).map₂ (· ++ ·) (cleanupList ss') := by
  simp only [cleanupList_eq, Cleaned.map₂, List.map_append, List.filter_append, List.sum_append,
    List.countP_append]
  congr 1
  omega

theorem cleanupList_of_cleanup {ss ss' : List Stmt} {openBrace : Token} {n : ℕ}
    (h : (block ss openBrace).cleanup = ⟨block ss' openBrace, n⟩) : cleanupList ss = ⟨ss', n⟩ := by
  obtain ⟨hvalue, hremoved⟩ := Cleaned.mk.inj h
  exact congrArg₂ Cleaned.mk (Stmt.block.inj hvalue).1 hremoved

theorem eq_of_isEmpty {s : Stmt} (h : s.isEmpty) :
    (∃ token, s = empty token) ∨ ∃ openBrace, s = block [] openBrace := by
  cases s with
  | empty token => exact .inl ⟨token, rfl⟩
  | block items openBrace =>
      obtain rfl := List.isEmpty_iff.mp h
      exact .inr ⟨openBrace, rfl⟩
  | _ => cases h

theorem cleanup_of_isEmpty {s : Stmt} (h : s.isEmpty) : s.cleanup = ⟨s, 0⟩ := by
  obtain ⟨token, rfl⟩ | ⟨openBrace, rfl⟩ := eq_of_isEmpty h
  · rfl
  · rfl

theorem consUnlessEmpty_adding (s : Cleaned Stmt) (rest : Cleaned (List Stmt)) (n : ℕ) :
    consUnlessEmpty (s.adding n) rest = (consUnlessEmpty s rest).adding n := by
  unfold consUnlessEmpty Cleaned.adding
  split_ifs <;> simp <;> omega

/-- Cleanup deletes what a deletion has deleted, and then it goes on as from there. -/
theorem Deletes.cleanup_eq {s s' : Stmt} (h : s.Deletes s') :
    s.cleanup = s'.cleanup.adding 1 := by
  induction h with
  | @item before after s _ hs =>
      have hitem : cleanupList (s :: after) = (cleanupList after).adding 1 := by
        rw [cleanupList, cleanup_of_isEmpty hs, consUnlessEmpty, if_pos hs, Nat.zero_add,
          Nat.add_comm]
        rfl
      simp only [cleanup, cleanupList_append, hitem, Cleaned.map₂_adding_right,
        Cleaned.map_adding]
  | @inside before after s s' _ _ ih =>
      have hitem : cleanupList (s :: after) = (cleanupList (s' :: after)).adding 1 := by
        rw [cleanupList, cleanupList, ih, consUnlessEmpty_adding]
      simp only [cleanup, cleanupList_append, hitem, Cleaned.map₂_adding_right,
        Cleaned.map_adding]
  | body _ ih | onlyBranch _ ih | thenBranch _ ih | elseBranch _ ih =>
      simp only [cleanup, ih, Cleaned.map_adding, Cleaned.map₂_adding_left,
        Cleaned.map₂_adding_right]

theorem cleanupList_of_fixed {ss : List Stmt}
    (h : ∀ s ∈ ss, ¬ s.isEmpty ∧ s.cleanup = ⟨s, 0⟩) : cleanupList ss = ⟨ss, 0⟩ := by
  induction ss with
  | nil => rfl
  | cons s ss ih =>
      obtain ⟨⟨hne, hs⟩, hss⟩ := List.forall_mem_cons.mp h
      rw [cleanupList, hs, ih hss, consUnlessEmpty, if_neg hne]
      rfl

/-- A tidy statement is its own result. -/
theorem cleanup_of_tidy {s : Stmt} (h : Tidy s.statements) : s.cleanup = ⟨s, 0⟩ := by
  induction s using tree_induction with
  | whileLoop _ _ _ ih | ifThen _ _ _ ih =>
      rw [cleanup, ih (tidy_cons.mp h).2]
      rfl
  | ifThenElse _ _ _ _ ihthen ihelse =>
      obtain ⟨hthen, helse⟩ := tidy_append.mp (tidy_cons.mp h).2
      rw [cleanup, ihthen hthen, ihelse helse]
      rfl
  | block items openBrace ih =>
      have hitems := tidy_block.mp h
      rw [cleanup, cleanupList_of_fixed fun s hs => ⟨(hitems s hs).1, ih s hs (hitems s hs).2⟩]
      rfl
  | _ => rfl

theorem tidy_cleanup (s : Stmt) : Tidy s.cleanup.value.statements := by
  induction s using tree_induction with
  | whileLoop _ _ _ ih | ifThen _ _ _ ih => exact tidy_cons.mpr ⟨trivial, ih⟩
  | ifThenElse _ _ _ _ ihthen ihelse =>
      exact tidy_cons.mpr ⟨trivial, tidy_append.mpr ⟨ihthen, ihelse⟩⟩
  | block items openBrace ih =>
      rw [cleanup, cleanupList_eq]
      refine tidy_block.mpr fun s hs => ?_
      obtain ⟨hmem, hs⟩ := List.mem_filter.mp hs
      obtain ⟨item, hitem, rfl⟩ := List.mem_map.mp hmem
      exact ⟨by simpa using hs, ih item hitem⟩
  | _ => exact tidy_cons.mpr ⟨trivial, nofun⟩

/-- A deletion takes one statement out of the tree. -/
theorem Deletes.length_statements {s s' : Stmt} (h : s.Deletes s') :
    s.statements.length = s'.statements.length + 1 := by
  induction h with
  | @item before after s _ hs =>
      have hone : s.statements.length = 1 := by
        obtain ⟨token, rfl⟩ | ⟨openBrace, rfl⟩ := eq_of_isEmpty hs
        · rfl
        · rfl
      simp only [statements, statementsAll_eq, List.flatMap_append, List.flatMap_cons,
        List.length_cons, List.length_append, hone]
      omega
  | body _ ih | onlyBranch _ ih => simp only [statements, List.length_cons, ih]
  | inside _ ih | thenBranch _ ih | elseBranch _ ih =>
      simp only [statements, statementsAll_eq, List.flatMap_append, List.flatMap_cons,
        List.length_cons, List.length_append, ih]
      omega

/-- Deletions lead from a list to what is left of it, item by item. They take place where
`place` puts the list of a block. -/
theorem iterated_cleanupList (place : List Stmt → α) {R : α → α → Prop} {openBrace : Token}
    (hplace : ∀ {items items'}, (block items openBrace).Deletes (block items' openBrace) →
      R (place items) (place items'))
    {ss : List Stmt} (h : ∀ s ∈ ss, Iterated Deletes s.cleanup.removed s s.cleanup.value)
    (before : List Stmt) :
    Iterated R (cleanupList ss).removed (place (before ++ ss))
      (place (before ++ (cleanupList ss).value)) := by
  -- The items in `before` are done. An item is cleaned where it stands, and then it is deleted
  -- or is done as well.
  induction ss generalizing before with
  | nil => exact .none
  | cons s ss ih =>
      rw [List.forall_mem_cons] at h
      have hitem : Iterated R s.cleanup.removed (place (before ++ s :: ss))
          (place (before ++ s.cleanup.value :: ss)) :=
        h.1.map (fun s => place (before ++ s :: ss)) fun hdeletes => hplace (.inside hdeletes)
      rw [cleanupList, consUnlessEmpty]
      split_ifs with hempty
      · rw [Nat.add_assoc, Nat.add_comm 1]
        exact hitem.trans (.cons (hplace (.item hempty)) (ih h.2 before))
      · have hrest := ih h.2 (before ++ [s.cleanup.value])
        simp only [List.append_assoc, List.singleton_append] at hrest
        exact hitem.trans hrest

/-- Deletions lead from a statement to the result of cleanup. -/
theorem iterated_cleanup (s : Stmt) : Iterated Deletes s.cleanup.removed s s.cleanup.value := by
  induction s using tree_induction with
  | whileLoop condition _ token ih => exact ih.map (whileLoop condition · token) .body
  | ifThen condition _ token ih => exact ih.map (ifThen condition · token) .onlyBranch
  | ifThenElse condition thenBranch elseBranch token ihthen ihelse =>
      exact (ihthen.map (ifThenElse condition · elseBranch token) .thenBranch).trans
        (ihelse.map (ifThenElse condition thenBranch.cleanup.value · token) .elseBranch)
  | block items openBrace ih =>
      exact iterated_cleanupList (block · openBrace) id ih []
  | _ => exact .none

end Stmt

namespace Global

theorem Deletes.cleanup_eq {g g' : Global} (h : g.Deletes g') :
    g.cleanup = g'.cleanup.adding 1 := by
  obtain ⟨h⟩ := h
  rw [cleanup, Stmt.cleanupList_of_cleanup h.cleanup_eq]
  rfl

theorem cleanup_of_tidy {g : Global} (h : Tidy g.statements) : g.cleanup = ⟨g, 0⟩ := by
  cases g with
  | var v => rfl
  | function f =>
      rw [cleanup, Stmt.cleanupList_of_cleanup (Stmt.cleanup_of_tidy h)]
      rfl

theorem tidy_cleanup (g : Global) : Tidy g.cleanup.value.statements := by
  cases g with
  | var v => exact nofun
  | function f => exact (Stmt.block f.body f.openBrace).tidy_cleanup

theorem Deletes.length_statements {g g' : Global} (h : g.Deletes g') :
    g.statements.length = g'.statements.length + 1 := by
  obtain ⟨h⟩ := h
  exact h.length_statements

theorem iterated_cleanup (g : Global) : Iterated Deletes g.cleanup.removed g g.cleanup.value := by
  cases g with
  | var v => exact .none
  | function f =>
      exact Stmt.iterated_cleanupList (fun body => function { f with body })
        (fun {body _} h => .body (f := { f with body }) h) (fun s _ => s.iterated_cleanup) []

theorem cleanupAll_append (gs gs' : List Global) :
    cleanupAll (gs ++ gs') = (cleanupAll gs).map₂ (· ++ ·) (cleanupAll gs') := by
  induction gs with
  | nil => simp [cleanupAll, Cleaned.map₂]
  | cons g gs ih => simp [cleanupAll, ih, Cleaned.map₂, Nat.add_assoc]

theorem cleanupAll_of_fixed {gs : List Global} (h : ∀ g ∈ gs, g.cleanup = ⟨g, 0⟩) :
    cleanupAll gs = ⟨gs, 0⟩ := by
  induction gs with
  | nil => rfl
  | cons g gs ih =>
      obtain ⟨hg, hgs⟩ := List.forall_mem_cons.mp h
      rw [cleanupAll, hg, ih hgs]
      rfl

theorem cleanupAll_value (gs : List Global) :
    (cleanupAll gs).value = gs.map (·.cleanup.value) := by
  induction gs with
  | nil => rfl
  | cons g gs ih => rw [cleanupAll, Cleaned.map₂, ih, List.map_cons]

theorem iterated_cleanupAll (gs before : List Global) :
    Iterated Program.Deletes (cleanupAll gs).removed ⟨before ++ gs⟩
      ⟨before ++ (cleanupAll gs).value⟩ := by
  induction gs generalizing before with
  | nil => exact .none
  | cons g gs ih =>
      have hfirst : Iterated Program.Deletes g.cleanup.removed ⟨before ++ g :: gs⟩
          ⟨before ++ g.cleanup.value :: gs⟩ :=
        g.iterated_cleanup.map (fun g => Program.mk (before ++ g :: gs)) .inside
      have hrest := ih (before ++ [g.cleanup.value])
      simp only [List.append_assoc, List.singleton_append] at hrest
      exact hfirst.trans hrest

end Global

namespace Program

variable {p q : Program} {n : ℕ}

theorem Deletes.cleanup_eq (h : p.Deletes q) : p.cleanup = q.cleanup.adding 1 := by
  obtain ⟨h⟩ := h
  simp only [cleanup, Global.cleanupAll_append, Global.cleanupAll, h.cleanup_eq,
    Cleaned.map₂_adding_left, Cleaned.map₂_adding_right, Cleaned.map_adding]

theorem Deletes.length_statements (h : p.Deletes q) :
    p.statements.length = q.statements.length + 1 := by
  obtain ⟨h⟩ := h
  simp only [statements, List.flatMap_append, List.flatMap_cons, List.length_append,
    h.length_statements]
  omega

theorem cleanup_of_tidy (h : Tidy p.statements) : p.cleanup = ⟨p, 0⟩ := by
  rw [Tidy, statements, List.forall_mem_flatMap] at h
  rw [cleanup, Global.cleanupAll_of_fixed fun g hg => Global.cleanup_of_tidy (h g hg)]
  rfl

theorem tidy_cleanup (p : Program) : Tidy p.cleanup.value.statements := by
  rw [Tidy, statements, List.forall_mem_flatMap, cleanup, Cleaned.map, Global.cleanupAll_value,
    List.forall_mem_map]
  exact fun g _ => g.tidy_cleanup

theorem iterated_cleanup (p : Program) :
    Iterated Deletes p.cleanup.removed p p.cleanup.value :=
  Global.iterated_cleanupAll p.globals []

theorem cleanup_of_iterated (h : Iterated Deletes n p q) : p.cleanup = q.cleanup.adding n := by
  induction h with
  | none => rfl
  | cons hdeletes _ ih => rw [hdeletes.cleanup_eq, ih]; rfl

/-- The result of cleanup is the one tidy program to which deletions lead. -/
theorem cleanup_eq_iff : p.cleanup = ⟨q, n⟩ ↔ Iterated Deletes n p q ∧ Tidy q.statements := by
  constructor
  · intro h
    have hdeletes := p.iterated_cleanup
    have htidy := p.tidy_cleanup
    rw [h] at hdeletes htidy
    exact ⟨hdeletes, htidy⟩
  · rintro ⟨hdeletes, htidy⟩
    rw [cleanup_of_iterated hdeletes, cleanup_of_tidy htidy, Cleaned.adding, Nat.zero_add]

end Program

/-! ## Cleanup by a walk -/

section
variable (leave : List Stmt → StateM ℕ (List Stmt))

/-- A walk over the statements that edits the list of each block when it leaves the block, and
that keeps a number on its way. -/
def Stmt.walkBlocks : Stmt → StateM ℕ Stmt
  | whileLoop condition body token => do
      return whileLoop condition (← body.walkBlocks) token
  | ifThen condition thenBranch token => do
      return ifThen condition (← thenBranch.walkBlocks) token
  | ifThenElse condition thenBranch elseBranch token => do
      return ifThenElse condition (← thenBranch.walkBlocks) (← elseBranch.walkBlocks) token
  | block items openBrace => do
      let items ← walkAll items
      return block (← leave items) openBrace
  | s => return s
where
  walkAll : List Stmt → StateM ℕ (List Stmt)
    | [] => return []
    | s :: ss => do return (← s.walkBlocks) :: (← walkAll ss)

/-- The body of a function is walked over as a block. -/
def Global.walkBlocks : Global → StateM ℕ Global
  | function f => do
      let body ← Stmt.walkBlocks.walkAll leave f.body
      return function { f with body := ← leave body }
  | var v => return var v

def Program.walkBlocks (p : Program) : StateM ℕ Program := do
  return ⟨← p.globals.mapM (Global.walkBlocks leave)⟩

end

/-- Drops the items without effect and counts them. -/
def Stmt.dropEmpty (items : List Stmt) : StateM ℕ (List Stmt) := do
  let kept := items.filter (!·.isEmpty)
  modify (· + (items.length - kept.length))
  return kept

/-- The result of cleanup as a computation that counts the statements that are gone. -/
def Cleaned.counted (c : Cleaned α) : StateM ℕ α := fun n => (c.value, n + c.removed)

theorem Cleaned.counted_bind (c : Cleaned α) (f : α → Cleaned β) :
    (c.counted >>= fun a => (f a).counted) =
      (Cleaned.mk (f c.value).value (c.removed + (f c.value).removed)).counted := by
  funext n
  exact congrArg (Prod.mk _) (Nat.add_assoc ..)

namespace Stmt

theorem dropEmpty_eq (items : List Stmt) : dropEmpty items =
    (Cleaned.mk (items.filter (!·.isEmpty)) (items.countP (·.isEmpty))).counted := by
  have hcount : items.length - (items.filter (!·.isEmpty)).length = items.countP (·.isEmpty) := by
    rw [← List.countP_eq_length_filter, List.length_eq_countP_add_countP (·.isEmpty)]
    simp
  funext n
  exact congrArg (fun k => (_, n + k)) hcount

theorem walkAll_eq {ss : List Stmt}
    (h : ∀ s ∈ ss, s.walkBlocks dropEmpty = s.cleanup.counted) :
    walkBlocks.walkAll dropEmpty ss =
      (Cleaned.mk (ss.map (·.cleanup.value)) (ss.map (·.cleanup.removed)).sum).counted := by
  induction ss with
  | nil => rfl
  | cons s ss ih =>
      rw [List.forall_mem_cons] at h
      rw [walkBlocks.walkAll, h.1, ih h.2]
      exact Cleaned.counted_bind s.cleanup fun v => .mk (v :: ss.map (·.cleanup.value)) _

/-- The list of a block is clean when the walk has left the block. -/
theorem walkAll_dropEmpty {ss : List Stmt}
    (h : ∀ s ∈ ss, s.walkBlocks dropEmpty = s.cleanup.counted) :
    (walkBlocks.walkAll dropEmpty ss >>= dropEmpty) = (cleanupList ss).counted := by
  rw [walkAll_eq h, funext dropEmpty_eq, Cleaned.counted_bind, cleanupList_eq]

theorem walkBlocks_dropEmpty (s : Stmt) : s.walkBlocks dropEmpty = s.cleanup.counted := by
  induction s using tree_induction with
  | whileLoop _ _ _ ih | ifThen _ _ _ ih =>
      rw [walkBlocks, ih]
      rfl
  | ifThenElse condition _ elseBranch token ihthen ihelse =>
      rw [walkBlocks, ihthen, ihelse]
      exact Cleaned.counted_bind _ fun s => elseBranch.cleanup.map (ifThenElse condition s · token)
  | block items openBrace ih =>
      have hlist := walkAll_dropEmpty ih
      calc (block items openBrace).walkBlocks dropEmpty
          = (walkBlocks.walkAll dropEmpty items >>= dropEmpty) >>= fun items =>
              pure (block items openBrace) := by rw [walkBlocks, bind_assoc]
        _ = (block items openBrace).cleanup.counted := by rw [hlist]; rfl
  | _ => rfl

end Stmt

theorem Global.walkBlocks_dropEmpty (g : Global) :
    g.walkBlocks Stmt.dropEmpty = g.cleanup.counted := by
  cases g with
  | var v => rfl
  | function f =>
      have hlist := Stmt.walkAll_dropEmpty fun s (_ : s ∈ f.body) => s.walkBlocks_dropEmpty
      calc (function f).walkBlocks Stmt.dropEmpty
          = (Stmt.walkBlocks.walkAll Stmt.dropEmpty f.body >>= Stmt.dropEmpty) >>= fun body =>
              pure (function { f with body }) := by rw [walkBlocks, bind_assoc]
        _ = (function f).cleanup.counted := by rw [hlist]; rfl

theorem Global.mapM_walkBlocks (gs : List Global) :
    gs.mapM (walkBlocks Stmt.dropEmpty) = (cleanupAll gs).counted := by
  induction gs with
  | nil => rfl
  | cons g gs ih =>
      rw [List.mapM_cons, ih, g.walkBlocks_dropEmpty]
      exact Cleaned.counted_bind _ fun g => (cleanupAll gs).map (g :: ·)

namespace Program

theorem walkBlocks_dropEmpty (p : Program) :
    p.walkBlocks Stmt.dropEmpty = p.cleanup.counted := by
  rw [walkBlocks, Global.mapM_walkBlocks]
  rfl

/-- Cleanup of a program is what deletions lead to, of empty statements and of blocks without
statements, from the lists of blocks only: it is the one tidy program that they reach, whatever
is deleted first. So many statements are gone as were deleted, and nothing is left for a second
cleanup to do. One walk is enough, which drops such items from each block when it leaves it. -/
theorem cleanup_normal_form (p : Program) :
    (∀ q n, p.cleanup = ⟨q, n⟩ ↔ Iterated Deletes n p q ∧ Tidy q.statements) ∧
      p.statements.length = p.cleanup.value.statements.length + p.cleanup.removed ∧
      p.cleanup.value.cleanup = ⟨p.cleanup.value, 0⟩ ∧
      (p.walkBlocks Stmt.dropEmpty).run 0 = (p.cleanup.value, p.cleanup.removed) := by
  refine ⟨fun q n => cleanup_eq_iff, ?_, cleanup_of_tidy p.tidy_cleanup, ?_⟩
  · exact p.iterated_cleanup.eq_add (·.statements.length) Deletes.length_statements
  · rw [walkBlocks_dropEmpty, StateT.run, Cleaned.counted, Nat.zero_add]

/-- A block that holds empty statements only is deleted after these; the body of a loop stays. -/
example (condition : Expr) (a b : Token) :
    (Stmt.block [.block [.empty a, .empty a] b, .whileLoop condition (.empty a) b] b).cleanup =
      ⟨.block [.whileLoop condition (.empty a) b] b, 3⟩ := rfl

end Program

end ScriptFront
