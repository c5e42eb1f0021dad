import Mathlib.Data.List.Sort
import ScriptFront.Proofs.SymbolTable.Pruned
import ScriptFront.SymbolTable.Listing

/-!
# The listing of a pruned table

A scope in which nothing is declared has no line in the listing of its table, and the
others are written with their names, not with their numbers. So the listing does not
tell whether such scopes have been left out.
-/
namespace ScriptFront

variable {α β γ : Type}

/-! ## Values in the order of their names -/

theorem values_eq_map_toList (m : Std.TreeMap String α) : m.values = m.toList.map Prod.snd := by
  change m.foldr (fun _ a as => a :: as) [] = _
  rw [Std.TreeMap.foldr_eq_foldr_toList]
  induction m.toList with
  | nil => rfl
  | cons e es ih => exact congrArg (e.2 :: ·) ih

/-- What the entries of a map contribute to a list, where they contribute something. -/
def contributions (m : Std.TreeMap String α) (f : α → List γ) : List (String × List γ) :=
  (m.toList.map fun e => (e.1, f e.2)).filter fun e => !e.2.isEmpty

theorem flatMap_contributions (m : Std.TreeMap String α) (f : α → List γ) :
    (contributions m f).flatMap Prod.snd = m.values.flatMap f := by
  unfold contributions
  rw [values_eq_map_toList]
  induction m.toList with
  | nil => rfl
  | cons e es ih =>
      rw [List.map_cons, List.map_cons, List.flatMap_cons, ← ih, List.filter_cons]
      split_ifs with h
      · rfl
      · have hnil : f e.2 = [] := by simpa using h
        rw [hnil, List.nil_append]

theorem mem_contributions {m : Std.TreeMap String α} {f : α → List γ} {e : String × List γ} :
    e ∈ contributions m f ↔ e.2 ≠ [] ∧ (m[e.1]?.map f).getD [] = e.2 := by
  obtain ⟨name, l⟩ := e
  simp only [contributions, List.mem_filter, List.mem_map, Prod.exists,
    Std.TreeMap.mem_toList_iff_getElem?_eq_some]
  constructor
  · rintro ⟨⟨_, a, ha, heq⟩, hl⟩
    obtain ⟨rfl, rfl⟩ := Prod.mk.inj heq
    rw [ha]
    exact ⟨by simpa using hl, rfl⟩
  · rintro ⟨hl, heq⟩
    cases ha : m[name]? with
    | none =>
        rw [ha] at heq
        exact absurd heq.symm hl
    | some a =>
        rw [ha] at heq
        exact ⟨⟨name, a, ha, Prod.ext rfl heq⟩, by simpa using hl⟩

theorem contributions_sorted (m : Std.TreeMap String α) (f : α → List γ) :
    (contributions m f).Pairwise fun a b => compare a.1 b.1 = .lt := by
  apply List.Pairwise.filter
  rw [List.pairwise_map]
  exact Std.TreeMap.ordered_keys_toList

/-- Maps whose values contribute the same under each name contribute the same list: names
without a contribution do not count. -/
theorem flatMap_values_congr {m : Std.TreeMap String α} {m' : Std.TreeMap String β}
    {f : α → List γ} {g : β → List γ}
    (h : ∀ name : String, (m[name]?.map f).getD [] = (m'[name]?.map g).getD []) :
    m.values.flatMap f = m'.values.flatMap g := by
  have hantisymm : Std.Antisymm fun a b : String × List γ => compare a.1 b.1 = .lt :=
    ⟨fun _ _ hab hba => absurd hba (Std.OrientedCmp.not_lt_of_lt hab)⟩
  have hirrefl : Std.Irrefl fun a b : String × List γ => compare a.1 b.1 = .lt :=
    ⟨fun a => by simp⟩
  rw [← flatMap_contributions, ← flatMap_contributions]
  congr 1
  apply List.Pairwise.eq_of_mem_iff (contributions_sorted m f) (contributions_sorted m' g)
  intro e
  rw [mem_contributions, mem_contributions, h]

theorem flatMap_values_eq_nil {m : Std.TreeMap String α} {f : α → List γ}
    (h : ∀ (name : String) (a : α), m[name]? = some a → f a = []) : m.values.flatMap f = [] := by
  rw [← flatMap_contributions, List.flatMap_eq_nil_iff]
  intro e he
  obtain ⟨-, heq⟩ := mem_contributions.mp he
  rw [← heq]
  cases ha : m[e.1]? with
  | none => rfl
  | some a => exact h e.1 a ha

namespace SymbolTable

variable {φ : ScopeId → ScopeId} {t u : SymbolTable} {scope : ScopeId}

/-! ## Paths and walks

The scopes lie in each other as a tree, so that no walk along them is cut off. -/

theorem Rooted.path_eq (h : t.Rooted) (scope : ScopeId) :
    t.path scope = ((t.parent? scope).map t.path).getD [] ++ (t.name? scope).toList := by
  rw [path]
  cases hp : t.parent? scope with
  | none =>
      rw [parentBelow?_eq_none hp]
      rfl
  | some outer =>
      rw [parentBelow?_of_parent? hp (h.below hp).1]
      rfl

theorem local?_of_scope? {s : Scope} (hs : t.scope? scope = some s) (name : String) :
    t.local? scope name = s.symbols[name]? := by
  rw [local?, hs, Option.bind_some]

theorem subScope?_of_scope? {s : Scope} (hs : t.scope? scope = some s) (name : String) :
    t.subScope? scope name = s.children[name]? := by
  rw [subScope?, hs, Option.bind_some]

theorem symbolsWithin_of_not_known (h : ¬ t.Known scope) : t.symbolsWithin scope = [] := by
  unfold Known at h
  rw [symbolsWithin, dif_neg h]

/-- The symbols within a scope, from the scopes directly inside of it. -/
theorem Rooted.symbolsWithin_eq (h : t.Rooted) {s : Scope} (hs : t.scope? scope = some s) :
    t.symbolsWithin scope =
      s.symbols.values.flatMap ([·]) ++ s.children.values.flatMap t.symbolsWithin := by
  obtain ⟨hlt, hget⟩ := Array.getElem?_eq_some_iff.mp hs
  rw [symbolsWithin, dif_pos hlt, hget, List.flatMap_singleton']
  refine congrArg _ (flatMap_values_congr fun name => ?_)
  rw [← subScope?_of_scope? hs]
  cases hc : t.subScope? scope name with
  | none => rfl
  | some inner => rw [Option.map_some, Option.map_some, if_pos (h.below (h.child hc).1).1]

/-! ## Pruned tables -/

namespace Pruned

variable (h : Pruned φ u t)
include h

theorem path_eq (hs : u.Known scope) : t.path (φ scope) = u.path scope := by
  induction scope using h.nested.outwards with
  | step scope ih =>
      rw [h.whole.path_eq, h.nested.path_eq, h.name hs, h.parent hs, Option.map_map]
      congr 2
      exact Option.map_congr fun outer hp => ih outer hp (h.nested.known_outer hp)

/-- There are no symbols within a scope that has been left out. -/
theorem symbolsWithin_left_out (hout : ∀ s, u.Known s → φ s ≠ scope) :
    t.symbolsWithin scope = [] := by
  induction scope using h.whole.inwards with
  | step scope ih =>
      by_cases hknown : t.Known scope
      case neg => exact symbolsWithin_of_not_known hknown
      obtain ⟨s, hs⟩ := hknown.exists_scope
      rw [h.whole.symbolsWithin_eq hs, List.append_eq_nil_iff]
      constructor
      · apply flatMap_values_eq_nil
        intro name id hid
        rw [← local?_of_scope? hs] at hid
        obtain ⟨s', hs', heq⟩ := h.kept hid
        exact absurd heq (hout s' hs')
      · apply flatMap_values_eq_nil
        intro name inner hc
        rw [← subScope?_of_scope? hs] at hc
        apply ih inner name hc
        rintro s' hs' rfl
        obtain ⟨hparent, -⟩ := h.whole.child hc
        rw [h.parent hs'] at hparent
        obtain ⟨outer, hp, heq⟩ := Option.map_eq_some_iff.mp hparent
        exact hout outer (h.nested.known_outer hp) heq

theorem symbolsWithin_eq (hs : u.Known scope) :
    t.symbolsWithin (φ scope) = u.symbolsWithin scope := by
  induction scope using h.nested.inwards with
  | step scope ih =>
      obtain ⟨s, hscope⟩ := hs.exists_scope
      obtain ⟨s', hscope'⟩ := (h.known hs).exists_scope
      rw [h.whole.symbolsWithin_eq hscope', h.nested.symbolsWithin_eq hscope]
      congr 1
      · apply flatMap_values_congr
        intro name
        rw [← local?_of_scope? hscope, ← local?_of_scope? hscope', h.declared name hs]
      · apply flatMap_values_congr
        intro name
        rw [← subScope?_of_scope? hscope, ← subScope?_of_scope? hscope']
        cases hc : u.subScope? scope name with
        | some inner =>
            rw [h.opened hc, Option.map_some, Option.map_some,
              ih inner name hc (h.nested.known_inner hc)]
        | none =>
            cases hout : t.subScope? (φ scope) name with
            | none => rfl
            | some outer =>
                rw [Option.map_some,
                  h.symbolsWithin_left_out fun s hs' => h.left_out hs hc hout hs']
                rfl

theorem listing_eq (types : TypeTable) : t.listing types = u.listing types := by
  have hwithin := h.symbolsWithin_eq h.nested.root
  rw [h.root] at hwithin
  unfold listing
  rw [hwithin]
  apply List.filterMap_congr
  intro id _
  rw [h.symbol, Option.map_map]
  refine Option.map_congr fun symbol hsymbol => ?_
  have hknown := known_of_local? (h.nested.listed hsymbol)
  exact congrArg (".".intercalate · ++ "." ++ signature types symbol) (h.path_eq hknown)

end Pruned

end SymbolTable

end ScriptFront
