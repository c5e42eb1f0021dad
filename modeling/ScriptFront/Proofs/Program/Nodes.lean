import ScriptFront.Proofs.Program.Cursor
import ScriptFront.Proofs.Program.Visits
import ScriptFront.Proofs.Tree.Walks

/-!
# The nodes of a program

What the nodes of a program are, and which parts are the children of each form of node. A
walk over a program keeps to this tree: it enters and leaves the nodes that no refused node
stands above, in the order of the source, and it tells the last child of each node.
-/
namespace ScriptFront

open Outline (Step)

/-- The nodes of a program. The parameters and the arguments form nodes of their own, and so
does the name of a called function. -/
inductive Node where
  | program (p : Program)
  | fnDef (f : FnDef)
  | globalVar (v : GlobalVar)
  | paramList (openParen : Token) (params : List Param)
  | param (p : Param)
  | typeName (t : TypeName)
  | stmt (s : Stmt)
  | argList (openParen : Token) (args : List Expr)
  | callee (i : Ident)
  | expr (e : Expr)

namespace Node

def ofGlobal : Global → Node
  | .function f => fnDef f
  | .var v => globalVar v

/-- The parts of an expression. -/
def ofExpr : Expr → List Node
  | .literal _ _ _ | .ident _ => []
  | .unary _ operand _ _ => [expr operand]
  | .binary _ left right _ _ => [expr left, expr right]
  | .call name args openParen _ => [callee name, argList openParen args]

/-- The parts of a statement. -/
def ofStmt : Stmt → List Node
  | .empty _ | .breakLoop _ => []
  | .whileLoop condition body _ => [expr condition, stmt body]
  | .ifThen condition thenBranch _ => [expr condition, stmt thenBranch]
  | .ifThenElse condition thenBranch elseBranch _ =>
      [expr condition, stmt thenBranch, stmt elseBranch]
  | .block statements _ => statements.map stmt
  | .assign target value => [expr (.ident target), expr value]
  | .returnValue value? _ => (value?.map expr).toList
  | .varDecl type _ initializer? _ => typeName type :: (initializer?.map expr).toList
  | .call name args openParen => [callee name, argList openParen args]

/-- The children of a node, in the order of the source. -/
def children : Node → List Node
  | program p => p.globals.map ofGlobal
  | fnDef f =>
      [typeName f.returnType, paramList f.openParen f.params, stmt (.block f.body f.openBrace)]
  | globalVar v => [typeName v.type]
  | paramList _ params => params.map param
  | param p => [typeName p.type]
  | typeName _ | callee _ => []
  | stmt s => ofStmt s
  | argList _ args => args.map expr
  | expr e => ofExpr e

def kindOfExpr : Expr → NodeKind
  | .literal value _ _ => value.nodeKind
  | .ident _ => .ident
  | .unary _ _ _ _ => .unary
  | .binary _ _ _ _ _ => .binary
  | .call _ _ _ _ => .callExpr

def kind : Node → NodeKind
  | program _ => .program
  | fnDef _ => .fnDef
  | globalVar _ => .globalVar
  | paramList _ _ => .paramList
  | param _ => .param
  | typeName _ => .typeName
  | stmt s => s.nodeKind
  | argList _ _ => .argList
  | callee _ => .callee
  | expr e => kindOfExpr e

/-! ## Outlines of nodes -/

def outline : Node → Outline
  | program p => p.outline
  | fnDef f => f.outline
  | globalVar v => v.outline
  | paramList openParen params => .inParens .paramList openParen (params.map Param.outline)
  | param p => p.outline
  | typeName t => t.outline
  | stmt s => s.outline
  | argList openParen args => .inParens .argList openParen (args.map Expr.outline)
  | callee i => i.outline .callee
  | expr e => e.outline

/-- What a walk is told of a node. -/
def label (n : Node) : NodeLabel :=
  match n.outline with
  | .node label _ => label

theorem outline_eq_of_children {n : Node} {label : NodeLabel} {trees : List Outline}
    (h : n.outline = .node label trees) (htrees : trees = n.children.map outline) :
    n.outline = .node n.label (n.children.map outline) := by
  rw [Node.label, h, htrees]

/-- The outline of a node shows its children, and nothing else below it. -/
theorem outline_eq (n : Node) : n.outline = .node n.label (n.children.map outline) := by
  cases n with
  | program p =>
      refine outline_eq_of_children rfl ?_
      rw [children, List.map_map]
      exact List.map_congr_left fun g _ => by cases g <;> rfl
  | fnDef f | globalVar v | param p | typeName t | callee i => rfl
  | paramList _ _ | argList _ _ =>
      refine outline_eq_of_children rfl ?_
      rw [children, List.map_map]
      rfl
  | expr e =>
      cases e with
      | literal _ _ _ | ident _ | unary _ _ _ _ | binary _ _ _ _ _ => rfl
      | call name args openParen _ =>
          refine outline_eq_of_children rfl ?_
          rw [Expr.outline.outlines_eq_map]
          rfl
  | stmt s =>
      cases s with
      | empty _ | breakLoop _ | whileLoop _ _ _ | ifThen _ _ _ | ifThenElse _ _ _ _
      | assign _ _ => rfl
      | block statements _ =>
          refine outline_eq_of_children rfl ?_
          rw [Stmt.outline.outlines_eq_map, children, ofStmt, List.map_map]
          rfl
      | returnValue value? _ => cases value? <;> rfl
      | varDecl _ _ initializer? _ => cases initializer? <;> rfl
      | call name args openParen =>
          refine outline_eq_of_children rfl ?_
          rw [Expr.outline.outlines_eq_map]
          rfl

theorem kind_label (n : Node) : n.label.kind = n.kind := by
  cases n with
  | stmt s => cases s <;> rfl
  | expr e => cases e <;> rfl
  | _ => rfl

/-! ## Paths -/

/-- The node to which a path leads. -/
def at? : Node → List ℕ → Option Node
  | n, [] => some n
  | n, i :: path => n.children[i]?.bind fun m => m.at? path

variable {n m : Node} {descend : NodeKind → Bool} {isLast last : Bool} {i : ℕ} {path : List ℕ}

theorem at?_cons (h : n.children[i]? = some m) : n.at? (i :: path) = m.at? path := by
  rw [at?, h, Option.bind_some]

theorem at?_append (front back : List ℕ) :
    n.at? (front ++ back) = (n.at? front).bind fun m => m.at? back := by
  induction front generalizing n with
  | nil => rfl
  | cons i front ih => simp only [List.cons_append, at?, ih, Option.bind_assoc]

/-- Behind the path of a node come the numbers of its children. -/
theorem exists_at?_concat_iff {front : List ℕ} (h : n.at? front = some m) :
    (∃ k, n.at? (front ++ [i]) = some k) ↔ i < m.children.length := by
  rw [at?_append, h, Option.bind_some, at?]
  simp [at?, ← Option.isSome_iff_exists]

/-- A path leads to a node, and none of the nodes above is refused. -/
structure Reached (n : Node) (descend : NodeKind → Bool) (path : List ℕ) : Prop where
  found : ∃ m, n.at? path = some m
  above {front back : List ℕ} {m : Node} :
    path = front ++ back → back ≠ [] → n.at? front = some m → descend m.kind

theorem reached_nil : n.Reached descend [] :=
  ⟨⟨n, rfl⟩, fun heq hne => absurd (List.append_eq_nil_iff.mp heq.symm).2 hne⟩

theorem reached_cons_iff : n.Reached descend (i :: path) ↔
    descend n.kind ∧ ∃ m, n.children[i]? = some m ∧ m.Reached descend path := by
  constructor
  · intro h
    obtain ⟨k, hk⟩ := h.found
    obtain ⟨m, hm, hk⟩ := Option.bind_eq_some_iff.mp hk
    have happend : i :: path = [] ++ i :: path := rfl
    refine ⟨h.above happend (List.cons_ne_nil _ _) rfl, m, hm, ⟨k, hk⟩, ?_⟩
    rintro front back u rfl hne hu
    exact h.above (List.cons_append ..).symm hne ((at?_cons hm).trans hu)
  · rintro ⟨hn, m, hm, h⟩
    refine ⟨?_, ?_⟩
    · rw [at?_cons hm]
      exact h.found
    · rintro (_ | ⟨j, front⟩) back u heq hne hu
      · obtain rfl := Option.some.inj hu
        exact hn
      · obtain ⟨rfl, rfl⟩ := List.cons.inj heq
        rw [at?_cons hm] at hu
        exact h.above rfl hne hu

theorem mem_entered_route :
    path ∈ Step.entered (n.outline.route descend) ↔ n.Reached descend path := by
  induction path generalizing n with
  | nil => simp [outline_eq, Outline.mem_entered_route, reached_nil]
  | cons i path ih =>
      rw [outline_eq, Outline.mem_entered_route, kind_label, reached_cons_iff,
        Outline.mem_entered_routeList]
      simp only [reduceCtorEq, false_or, List.getElem?_map, Option.map_eq_some_iff, Nat.zero_add,
        List.cons.injEq]
      refine and_congr_right fun _ => ⟨?_, ?_⟩
      · rintro ⟨_, _, _, ⟨m, hm, rfl⟩, hinner, rfl, rfl⟩
        exact ⟨m, hm, ih.mp hinner⟩
      · rintro ⟨m, hm, h⟩
        exact ⟨i, m.outline, path, ⟨m, hm, rfl⟩, ih.mpr h, rfl, rfl⟩

/-- Siblings are reached together. -/
theorem Reached.concat_iff {front : List ℕ} {j : ℕ} (h : n.Reached descend (front ++ [i]))
    (hm : n.at? front = some m) : n.Reached descend (front ++ [j]) ↔ j < m.children.length := by
  rw [← exists_at?_concat_iff hm]
  refine ⟨Reached.found, fun hfound => ⟨hfound, ?_⟩⟩
  intro front' back u heq hne hu
  obtain rfl | ⟨back, k, rfl⟩ := List.eq_nil_or_concat' back
  · exact absurd rfl hne
  · rw [← List.append_assoc] at heq
    obtain ⟨rfl, -⟩ := List.append_inj' heq rfl
    exact h.above (List.append_assoc ..) (List.append_ne_nil_of_right_ne_nil _
      (List.cons_ne_nil _ _)) hu

/-! ## Walks over nodes -/

/-- A visit shows the node at the path of a step. It tells a child whether no other is behind
it, and the flag is that of the root of the walk. -/
structure Shows (n : Node) (isLast : Bool) (step : Step) (visit : Visit) : Prop where
  entering : visit.entering = step.entering
  node : ∃ m, n.at? step.path = some m ∧ visit.label = m.label
  root : step.path = [] → visit.isLast = isLast
  child {front : List ℕ} {i : ℕ} {m : Node} : step.path = front ++ [i] →
    n.at? front = some m → (visit.isLast ↔ i + 1 = m.children.length)

theorem shows_root (n : Node) (isLast entering : Bool) :
    n.Shows isLast ⟨entering, []⟩ ⟨entering, n.label, isLast⟩ :=
  ⟨rfl, ⟨n, rfl, rfl⟩, fun _ => rfl, fun heq => by simp at heq⟩

theorem Shows.under {step : Step} {visit : Visit} (h : m.Shows last step visit)
    (hm : n.children[i]? = some m) (hlast : last ↔ i + 1 = n.children.length) :
    n.Shows isLast (step.under i) visit := by
  refine ⟨h.entering, ?_, fun heq => absurd heq (List.cons_ne_nil _ _), ?_⟩
  · rw [Step.under, at?_cons hm]
    exact h.node
  · rintro (_ | ⟨j, front⟩) k u heq hu
    · obtain ⟨rfl, hpath⟩ := List.cons.inj heq
      obtain rfl := Option.some.inj hu
      rw [h.root hpath, hlast]
    · obtain ⟨rfl, hpath⟩ := List.cons.inj heq
      rw [at?_cons hm] at hu
      exact h.child hpath hu

theorem shows_walkList (front : List Node) {nodes : List Node}
    (hchildren : n.children = front ++ nodes)
    (h : ∀ m ∈ nodes, ∀ last, List.Forall₂ (m.Shows last) (m.outline.route descend)
      (m.outline.walk descend last)) :
    List.Forall₂ (n.Shows isLast)
      (Outline.route.routeList descend front.length (nodes.map outline))
      (Outline.walk.walkList descend (nodes.map outline)) := by
  induction nodes generalizing front with
  | nil => exact .nil
  | cons m nodes ih =>
      rw [List.forall_mem_cons] at h
      have hm : n.children[front.length]? = some m := by simp [hchildren]
      have hlast : (nodes.map outline).isEmpty ↔ front.length + 1 = n.children.length := by
        simp [hchildren]
      have hrest := ih (front ++ [m]) (by simp [hchildren]) h.2
      rw [List.length_append, List.length_singleton] at hrest
      refine List.rel_append ?_ hrest
      rw [List.forall₂_map_left_iff]
      exact (h.1 _).imp fun _ _ hshows => hshows.under hm hlast

theorem induction {P : Node → Prop} (h : ∀ n, (∀ m ∈ n.children, P m) → P n) (n : Node) : P n := by
  induction ht : n.outline using Outline.induction generalizing n with
  | node label trees ih =>
      refine h n fun m hm => ih m.outline ?_ m rfl
      rw [outline_eq] at ht
      obtain ⟨-, rfl⟩ := Outline.node.inj ht
      exact List.mem_map_of_mem hm

/-- Step by step, a walk shows the nodes on its route. -/
theorem shows_walk (descend : NodeKind → Bool) (n : Node) (isLast : Bool) :
    List.Forall₂ (n.Shows isLast) (n.outline.route descend) (n.outline.walk descend isLast) := by
  induction n using Node.induction generalizing isLast with
  | h n ih =>
      rw [outline_eq, Outline.route, Outline.walk]
      refine .cons (n.shows_root isLast true)
        (List.rel_append ?_ (.cons (n.shows_root isLast false) .nil))
      split_ifs
      · exact shows_walkList [] rfl ih
      · exact .nil

/-- What the visits of a walk tell, by the steps that they stand for. Each shows the node at the
path of its step. Enterings and leavings are well nested. The nodes that are entered, and those
that are left, are the ones above which no node is refused. They are entered in the order of
their paths, so a node comes before its children and these come one after the other; none is
entered or left twice. Of the children that are visited below a node, the one with the greatest
number is told to be the last. -/
structure Traversed (n : Node) (descend : NodeKind → Bool) (isLast : Bool) (steps : List Step)
    (visits : List Visit) : Prop where
  shows : List.Forall₂ (fun step visit => visit.entering = step.entering ∧
    ∃ m, n.at? step.path = some m ∧ visit.label = m.label ∧ visit.label.kind = m.kind) steps visits
  nested : Step.WellNested steps
  entered (path : List ℕ) : path ∈ Step.entered steps ↔ n.Reached descend path
  ordered : (Step.entered steps).Pairwise (· < ·)
  left : (Step.left steps).Perm (Step.entered steps)
  last : List.Forall₂ (fun step visit => (step.path = [] → visit.isLast = isLast) ∧
    ∀ front i, step.path = front ++ [i] →
      (visit.isLast ↔ ∀ j, front ++ [j] ∈ Step.entered steps → j ≤ i)) steps visits

theorem Shows.last_iff {step : Step} {visit : Visit} {front : List ℕ}
    (h : n.Shows isLast step visit) (hreached : n.Reached descend step.path)
    (hpath : step.path = front ++ [i]) :
    visit.isLast ↔ ∀ j, n.Reached descend (front ++ [j]) → j ≤ i := by
  rw [hpath] at hreached
  obtain ⟨k, hk⟩ := hreached.found
  rw [at?_append] at hk
  obtain ⟨m, hm, -⟩ := Option.bind_eq_some_iff.mp hk
  have hi : i < m.children.length := (hreached.concat_iff hm).mp hreached
  simp only [h.child hpath hm, hreached.concat_iff hm]
  constructor
  · intro hlast j hj
    omega
  · intro hall
    have := hall (m.children.length - 1) (by omega)
    omega

theorem traversed (n : Node) (descend : NodeKind → Bool) (isLast : Bool) :
    n.Traversed descend isLast (n.outline.route descend) (n.outline.walk descend isLast) := by
  have hshows := n.shows_walk descend isLast
  have hnested := n.outline.wellNested_route descend
  have hreached : ∀ step ∈ n.outline.route descend, n.Reached descend step.path :=
    fun step hstep => mem_entered_route.mp (hnested.path_mem_entered hstep)
  refine ⟨hshows.imp fun step visit h => ?_, hnested, fun _ => mem_entered_route,
    n.outline.pairwise_entered_route descend, hnested.left_perm,
    ((List.forall₂_and_left _ _).mpr ⟨hreached, hshows⟩).imp fun step visit h => ?_⟩
  · obtain ⟨m, hm, hlabel⟩ := h.node
    exact ⟨h.entering, m, hm, hlabel, hlabel ▸ m.kind_label⟩
  · obtain ⟨hstep, h⟩ := h
    refine ⟨h.root, fun front i hpath => ?_⟩
    simp only [mem_entered_route]
    exact h.last_iff hstep hpath

end Node

end ScriptFront
