import Mathlib
import ScriptFront.Outline

/-!
# The steps of a walk

A node of a tree is told by its path: the numbers of the children through which one comes
to it from the root. A walk enters and leaves nodes, and each step is told by the path of
its node. Whatever kinds of node a walk looks into, its steps are well nested, and it enters
the nodes in the order of their paths, each of them once.
-/
namespace ScriptFront.Outline

/-- A node is entered or left. -/
structure Step where
  entering : Bool
  path : List ℕ
deriving DecidableEq, Repr

namespace Step

/-- The step in a child, seen from the parent. -/
def under (i : ℕ) (s : Step) : Step := ⟨s.entering, i :: s.path⟩

/-- The nodes that are entered, in this order. -/
def entered (steps : List Step) : List (List ℕ) := (steps.filter (·.entering)).map (·.path)

/-- The nodes that are left, in this order. -/
def left (steps : List Step) : List (List ℕ) := (steps.filter (!·.entering)).map (·.path)

/-- Each node that is entered is left again, and what is entered in between is left before. -/
inductive WellNested : List Step → Prop
  | nil : WellNested []
  | node {path : List ℕ} {inside rest : List Step} : WellNested inside → WellNested rest →
      WellNested (⟨true, path⟩ :: (inside ++ ⟨false, path⟩ :: rest))

variable {steps steps' : List Step}

@[simp] theorem entered_nil : entered [] = [] := rfl

@[simp] theorem entered_append : entered (steps ++ steps') = entered steps ++ entered steps' := by
  simp [entered]

@[simp] theorem entered_cons_true (path : List ℕ) :
    entered (⟨true, path⟩ :: steps) = path :: entered steps := rfl

@[simp] theorem entered_cons_false (path : List ℕ) :
    entered (⟨false, path⟩ :: steps) = entered steps := rfl

@[simp] theorem entered_map_under (i : ℕ) :
    entered (steps.map (under i)) = (entered steps).map (i :: ·) := by
  simp only [entered, List.filter_map, List.map_map]
  rfl

@[simp] theorem left_append : left (steps ++ steps') = left steps ++ left steps' := by
  simp [left]

@[simp] theorem left_cons_true (path : List ℕ) :
    left (⟨true, path⟩ :: steps) = left steps := rfl

@[simp] theorem left_cons_false (path : List ℕ) :
    left (⟨false, path⟩ :: steps) = path :: left steps := rfl

namespace WellNested

theorem append (h : WellNested steps) (h' : WellNested steps') : WellNested (steps ++ steps') := by
  induction h with
  | nil => exact h'
  | node hinside _ _ ih => simpa using hinside.node ih

theorem under (h : WellNested steps) (i : ℕ) : WellNested (steps.map (Step.under i)) := by
  induction h with
  | nil => exact .nil
  | node _ _ ihinside ihrest => simpa [Step.under] using ihinside.node ihrest

/-- The nodes that are left are those that are entered. -/
theorem left_perm (h : WellNested steps) : (left steps).Perm (entered steps) := by
  induction h with
  | nil => exact .nil
  | @node path _ _ _ _ ihinside ihrest =>
      simp only [left_cons_true, left_append, left_cons_false, entered_cons_true, entered_append,
        entered_cons_false]
      exact List.perm_middle.trans ((ihinside.append ihrest).cons path)

theorem path_mem_entered (h : WellNested steps) {s : Step} (hs : s ∈ steps) :
    s.path ∈ entered steps := by
  obtain ⟨entering, path⟩ := s
  cases entering with
  | true => exact List.mem_map_of_mem (List.mem_filter.mpr ⟨hs, rfl⟩)
  | false =>
      exact h.left_perm.mem_iff.mp (List.mem_map_of_mem (List.mem_filter.mpr ⟨hs, rfl⟩))

end WellNested

end Step

/-! ## The route of a walk -/

variable {descend : NodeKind → Bool}

theorem induction {P : Outline → Prop}
    (node : ∀ label children, (∀ t ∈ children, P t) → P (.node label children)) : ∀ t, P t
  | .node label children => node label children fun t _ => induction node t

/-- The steps of a walk that looks into these kinds of node. -/
def route (descend : NodeKind → Bool) : Outline → List Step
  | node label children =>
      ⟨true, []⟩ ::
        ((if descend label.kind then routeList descend 0 children else []) ++ [⟨false, []⟩])
where
  routeList (descend : NodeKind → Bool) (i : ℕ) : List Outline → List Step
    | [] => []
    | t :: ts => (t.route descend).map (Step.under i) ++ routeList descend (i + 1) ts

/-- An entered node is the root, or a node in a child if the walk looks into the root. -/
theorem mem_entered_route {label : NodeLabel} {children : List Outline} {path : List ℕ} :
    path ∈ Step.entered ((node label children).route descend) ↔
      path = [] ∨
        descend label.kind ∧ path ∈ Step.entered (route.routeList descend 0 children) := by
  rw [route]
  split_ifs with h <;> simp [h]

theorem mem_entered_routeList {i : ℕ} {ts : List Outline} {path : List ℕ} :
    path ∈ Step.entered (route.routeList descend i ts) ↔
      ∃ j t inner, ts[j]? = some t ∧ inner ∈ Step.entered (t.route descend) ∧
        path = (i + j) :: inner := by
  induction ts generalizing i with
  | nil => simp [route.routeList]
  | cons t ts ih =>
      rw [route.routeList, Step.entered_append, Step.entered_map_under, List.mem_append,
        List.mem_map, ih]
      constructor
      · rintro (⟨inner, hinner, rfl⟩ | ⟨j, u, inner, hu, hinner, rfl⟩)
        · exact ⟨0, t, inner, rfl, hinner, rfl⟩
        · exact ⟨j + 1, u, inner, hu, hinner, by rw [Nat.add_right_comm, Nat.add_assoc]⟩
      · rintro ⟨_ | j, u, inner, hu, hinner, rfl⟩
        · obtain rfl := Option.some.inj hu
          exact .inl ⟨inner, hinner, rfl⟩
        · exact .inr ⟨j, u, inner, hu, hinner, by rw [Nat.add_right_comm, Nat.add_assoc]⟩

theorem wellNested_routeList {ts : List Outline}
    (h : ∀ t ∈ ts, Step.WellNested (t.route descend)) (i : ℕ) :
    Step.WellNested (route.routeList descend i ts) := by
  induction ts generalizing i with
  | nil => exact .nil
  | cons t ts ih =>
      rw [List.forall_mem_cons] at h
      exact (h.1.under i).append (ih h.2 (i + 1))

theorem wellNested_route (descend : NodeKind → Bool) (t : Outline) : Step.WellNested (t.route descend) := by
  induction t using Outline.induction with
  | node label children ih =>
      rw [route]
      split_ifs
      · exact .node (wellNested_routeList ih 0) .nil
      · exact .node .nil .nil

theorem pairwise_entered_routeList {ts : List Outline}
    (h : ∀ t ∈ ts, (Step.entered (t.route descend)).Pairwise (· < ·)) (i : ℕ) :
    (Step.entered (route.routeList descend i ts)).Pairwise (· < ·) := by
  induction ts generalizing i with
  | nil => exact .nil
  | cons t ts ih =>
      rw [List.forall_mem_cons] at h
      rw [route.routeList, Step.entered_append, Step.entered_map_under, List.pairwise_append]
      refine ⟨List.pairwise_map.mpr (h.1.imp fun hlt => List.cons_lt_cons_self.mpr hlt),
        ih h.2 (i + 1), fun path hpath path' hpath' => ?_⟩
      obtain ⟨inner, -, rfl⟩ := List.mem_map.mp hpath
      obtain ⟨j, -, inner', -, -, rfl⟩ := mem_entered_routeList.mp hpath'
      exact List.cons_lt_cons_iff.mpr (.inl (by omega))

/-- The nodes are entered in the order of their paths, and none of them twice. -/
theorem pairwise_entered_route (descend : NodeKind → Bool) (t : Outline) :
    (Step.entered (t.route descend)).Pairwise (· < ·) := by
  induction t using Outline.induction with
  | node label children ih =>
      have hinside := pairwise_entered_routeList ih 0
      rw [route]
      split_ifs
      · simp only [Step.entered_cons_true, Step.entered_append, Step.entered_cons_false,
          Step.entered_nil, List.append_nil, List.pairwise_cons]
        refine ⟨fun path hpath => ?_, hinside⟩
        obtain ⟨j, -, inner, -, -, rfl⟩ := mem_entered_routeList.mp hpath
        exact List.nil_lt_cons _ _
      · exact List.pairwise_singleton _ _

end ScriptFront.Outline
