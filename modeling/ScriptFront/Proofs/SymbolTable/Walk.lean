import Mathlib.Logic.Relation
import ScriptFront.Proofs.SymbolTable.Listing

/-!
# Scopes inside of a scope

A scope is inside of itself, of the scope around it, and of all scopes around that one.
The scopes inside of a scope are that scope and those inside of the scopes directly in it,
which have none in common. So the walk over them comes to each of them once, and the
listing of a table has one line for each symbol.
-/
namespace ScriptFront.SymbolTable

variable {t : SymbolTable} {scope inner outer : ScopeId} {symbol : Symbol} {id : SymbolId}
  {name : String}

/-! ## Values of a map -/

section
variable {α β : Type} {m : Std.TreeMap String α} {f : α → List β}

theorem mem_flatMap_values {b : β} :
    b ∈ m.values.flatMap f ↔ ∃ (name : String) (a : α), m[name]? = some a ∧ b ∈ f a := by
  simp only [values_eq_map_toList, List.flatMap_map, List.mem_flatMap, Prod.exists,
    Std.TreeMap.mem_toList_iff_getElem?_eq_some]

theorem nodup_flatMap_values
    (h : ∀ (name : String) (a : α), m[name]? = some a → (f a).Nodup)
    (hne : ∀ (n n' : String) (a a' : α), m[n]? = some a → m[n']? = some a' → n ≠ n' →
      (f a).Disjoint (f a')) : (m.values.flatMap f).Nodup := by
  rw [values_eq_map_toList, List.flatMap_map, List.nodup_flatMap]
  constructor
  · intro e he
    exact h e.1 e.2 (Std.TreeMap.mem_toList_iff_getElem?_eq_some.mp he)
  · apply Std.TreeMap.distinct_keys_toList.imp_of_mem
    intro a b ha hb hab
    refine hne _ _ _ _ (Std.TreeMap.mem_toList_iff_getElem?_eq_some.mp ha)
      (Std.TreeMap.mem_toList_iff_getElem?_eq_some.mp hb) fun heq => hab ?_
    rw [heq]
    exact Std.ReflCmp.compare_self

end

/-! ## Scopes inside of each other -/

/-- The scope is another one or lies in it, at any depth. -/
def LiesIn (t : SymbolTable) : ScopeId → ScopeId → Prop :=
  Relation.ReflTransGen fun inner outer => t.parent? inner = some outer

namespace LiesIn

theorem refl (t : SymbolTable) (scope : ScopeId) : t.LiesIn scope scope :=
  Relation.ReflTransGen.refl

theorem of_parent? (hp : t.parent? inner = some scope) (h : t.LiesIn scope outer) :
    t.LiesIn inner outer :=
  Relation.ReflTransGen.head hp h

/-- Of two scopes around a scope, one is inside of the other. -/
theorem total (h : t.LiesIn scope inner) (k : t.LiesIn scope outer) :
    t.LiesIn inner outer ∨ t.LiesIn outer inner :=
  Relation.ReflTransGen.total_of_right_unique
    (fun _ _ _ h k => Option.some.inj (h.symm.trans k)) h k

end LiesIn

namespace Rooted

variable (h : t.Rooted)
include h

theorem index_le_of_liesIn (hi : t.LiesIn inner outer) : outer.index ≤ inner.index := by
  induction hi with
  | refl => exact Nat.le_refl _
  | tail _ hp ih => exact Nat.le_trans (Nat.le_of_lt (h.below hp).1) ih

theorem not_liesIn_of_parent? (hp : t.parent? inner = some outer) : ¬ t.LiesIn outer inner :=
  fun hi => Nat.not_le.mpr (h.below hp).1 (h.index_le_of_liesIn hi)

theorem liesIn_global (hs : t.Known scope) : t.LiesIn scope .global := by
  induction scope using h.outwards with
  | step scope ih =>
      by_cases hroot : scope = .global
      · exact hroot ▸ .refl t scope
      · obtain ⟨p, hp⟩ := h.housed hs hroot
        exact .of_parent? hp (ih p hp (h.known_outer hp))

/-- What is inside of a scope is that scope, or inside of one that lies directly in it. -/
theorem liesIn_iff : t.LiesIn inner outer ↔
    inner = outer ∨ ∃ name s, t.subScope? outer name = some s ∧ t.LiesIn inner s := by
  constructor
  · intro hi
    rcases hi.cases_tail with rfl | ⟨s, hs, hp⟩
    · exact .inl rfl
    · obtain ⟨-, name, hc⟩ := h.below hp
      exact .inr ⟨name, s, hc, hs⟩
  · rintro (rfl | ⟨name, s, hc, hs⟩)
    · exact .refl t inner
    · exact hs.tail (h.child hc).1

/-- Scopes that lie directly in the same scope have no scope inside in common. -/
theorem eq_of_liesIn {s s' : ScopeId} {n n' : String} (hc : t.subScope? outer n = some s)
    (hc' : t.subScope? outer n' = some s') (hi : t.LiesIn inner s) (hi' : t.LiesIn inner s') :
    s = s' := by
  have hp := (h.child hc).1
  have hp' := (h.child hc').1
  -- going outwards from one of them, the first step leads to the scope around both
  have hsame : ∀ {a b : ScopeId}, t.parent? a = some outer → t.parent? b = some outer →
      t.LiesIn a b → a = b := by
    intro a b ha hb hab
    rcases hab.cases_head with rfl | ⟨p, hap, hpb⟩
    · rfl
    · cases ha.symm.trans hap
      exact absurd hpb (h.not_liesIn_of_parent? hb)
  rcases hi.total hi' with hab | hba
  · exact hsame hp hp' hab
  · exact (hsame hp' hp hba).symm

/-! ## The symbols inside of a scope -/

/-- The walk over the scopes inside of a scope comes to what is declared in it, and then
goes into the scopes directly in it. -/
theorem mem_symbolsWithin_step : id ∈ t.symbolsWithin scope ↔
    (∃ name, t.local? scope name = some id) ∨
      ∃ name inner, t.subScope? scope name = some inner ∧ id ∈ t.symbolsWithin inner := by
  by_cases hknown : t.Known scope
  · obtain ⟨s, hs⟩ := hknown.exists_scope
    simp only [h.symbolsWithin_eq hs, List.mem_append, mem_flatMap_values,
      ← local?_of_scope? hs, ← subScope?_of_scope? hs, List.mem_singleton,
      exists_eq_right']
  · simp [symbolsWithin_of_not_known hknown, local?_of_not_known hknown,
      subScope?_of_not_known hknown]

/-- The walk comes to the symbols that are declared inside of the scope. -/
theorem mem_symbolsWithin_iff : id ∈ t.symbolsWithin scope ↔
    ∃ symbol, t.symbol? id = some symbol ∧ t.LiesIn symbol.scope scope := by
  induction scope using h.inwards with
  | step scope ih =>
      rw [h.mem_symbolsWithin_step]
      constructor
      · rintro (⟨name, hl⟩ | ⟨name, inner, hc, hid⟩)
        · obtain ⟨x, hx, -, hscope⟩ := h.entry hl
          exact ⟨x, hx, hscope ▸ .refl t _⟩
        · obtain ⟨x, hx, hi⟩ := (ih inner name hc).mp hid
          exact ⟨x, hx, h.liesIn_iff.mpr (.inr ⟨name, inner, hc, hi⟩)⟩
      · rintro ⟨x, hx, hi⟩
        rcases h.liesIn_iff.mp hi with rfl | ⟨name, inner, hc, hi⟩
        · exact .inl ⟨x.name, h.listed hx⟩
        · exact .inr ⟨name, inner, hc, (ih inner name hc).mpr ⟨x, hx, hi⟩⟩

theorem notMem_symbolsWithin {n : String} (hl : t.local? scope name = some id)
    (hc : t.subScope? scope n = some inner) : id ∉ t.symbolsWithin inner := by
  intro hid
  obtain ⟨x, hx, -, rfl⟩ := h.entry hl
  obtain ⟨x', hx', hin⟩ := h.mem_symbolsWithin_iff.mp hid
  cases hx.symm.trans hx'
  exact h.not_liesIn_of_parent? (h.child hc).1 hin

/-- No symbol is declared inside of two scopes that lie directly in the same scope. -/
theorem disjoint_symbolsWithin {s s' : ScopeId} {n n' : String}
    (hc : t.subScope? scope n = some s) (hc' : t.subScope? scope n' = some s') (hne : n ≠ n') :
    (t.symbolsWithin s).Disjoint (t.symbolsWithin s') := by
  intro i hi hi'
  obtain ⟨x, hx, hin⟩ := h.mem_symbolsWithin_iff.mp hi
  obtain ⟨x', hx', hin'⟩ := h.mem_symbolsWithin_iff.mp hi'
  cases hx.symm.trans hx'
  cases h.eq_of_liesIn hc hc' hin hin'
  exact hne (Option.some.inj ((h.child hc).2.symm.trans (h.child hc').2))

theorem name_eq_of_local? {n n' : String} (hl : t.local? scope n = some id)
    (hl' : t.local? scope n' = some id) : n = n' := by
  obtain ⟨x, hx, hname, -⟩ := h.entry hl
  obtain ⟨x', hx', hname', -⟩ := h.entry hl'
  cases hx.symm.trans hx'
  exact hname.symm.trans hname'

theorem nodup_symbolsWithin : (t.symbolsWithin scope).Nodup := by
  induction scope using h.inwards with
  | step scope ih =>
      by_cases hknown : t.Known scope
      case neg => exact symbolsWithin_of_not_known hknown ▸ List.nodup_nil
      obtain ⟨s, hs⟩ := hknown.exists_scope
      rw [h.symbolsWithin_eq hs]
      apply List.Nodup.append
      · apply nodup_flatMap_values
        · intro name i _
          exact List.nodup_singleton i
        · intro n n' i i' hn hn' hne
          rw [← local?_of_scope? hs] at hn hn'
          rw [List.singleton_disjoint, List.mem_singleton]
          rintro rfl
          exact hne (h.name_eq_of_local? hn hn')
      · apply nodup_flatMap_values
        · intro name inner hc
          exact ih inner name ((subScope?_of_scope? hs name).trans hc)
        · intro n n' inner inner' hc hc'
          rw [← subScope?_of_scope? hs] at hc hc'
          exact h.disjoint_symbolsWithin hc hc'
      · intro i hi hi'
        obtain ⟨name, j, hj, hij⟩ := mem_flatMap_values.mp hi
        obtain ⟨n, inner, hc, hin⟩ := mem_flatMap_values.mp hi'
        cases List.mem_singleton.mp hij
        rw [← local?_of_scope? hs] at hj
        rw [← subScope?_of_scope? hs] at hc
        exact h.notMem_symbolsWithin hj hc hin

/-- From the global scope, the walk comes to every symbol. -/
theorem mem_symbolsWithin_global_iff :
    id ∈ t.symbolsWithin .global ↔ ∃ symbol, t.symbol? id = some symbol := by
  refine h.mem_symbolsWithin_iff.trans (exists_congr fun symbol => and_iff_left_of_imp fun hs => ?_)
  exact h.liesIn_global (known_of_local? (h.listed hs))

theorem symbolsWithin_global_perm :
    (t.symbolsWithin .global).Perm ((List.range t.symbols.size).map SymbolId.mk) := by
  rw [List.perm_ext_iff_of_nodup h.nodup_symbolsWithin]
  · rintro ⟨i⟩
    simp [h.mem_symbolsWithin_global_iff, symbol?, ← Option.isSome_iff_exists]
  · exact List.nodup_range.map fun _ _ => SymbolId.mk.inj

end Rooted

/-! ## The listing -/

theorem filterMap_symbol? {α : Type} (f : Symbol → α) :
    ((List.range t.symbols.size).map SymbolId.mk).filterMap (fun id => (t.symbol? id).map f) =
      t.symbols.toList.map f := by
  have hall : (List.range t.symbols.size).map (fun i => t.symbol? ⟨i⟩) =
      t.symbols.toList.map some := by
    apply List.ext_getElem
    · simp
    · intro i hi hi'
      simp [symbol?]
  calc
    _ = ((List.range t.symbols.size).map fun i => t.symbol? ⟨i⟩).filterMap (Option.map f) := by
      rw [List.filterMap_map, List.filterMap_map]
      rfl
    _ = (t.symbols.toList.map some).filterMap (Option.map f) := by rw [hall]
    _ = t.symbols.toList.map f := by
      rw [List.filterMap_map]
      exact congrFun (List.filterMap_eq_map (f := f)) _

/-- The listing has one line for each symbol. -/
theorem Rooted.listing_perm (h : t.Rooted) (types : TypeTable) :
    (t.listing types).Perm (t.symbols.toList.map (t.qualifiedSignature types)) := by
  rw [← filterMap_symbol?]
  exact h.symbolsWithin_global_perm.filterMap _

end ScriptFront.SymbolTable
