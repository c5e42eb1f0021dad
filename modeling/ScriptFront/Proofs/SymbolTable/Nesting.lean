import ScriptFront.Proofs.SymbolTable.Additions

/-!
# Nesting of scopes

The scopes of a table are a tree: each one but the global scope lies in a scope of a
smaller number and is found there under its name. The symbols stand in the scopes in
the same way. Additions keep this up, whether or not something is reported, and take
nothing back.
-/
namespace ScriptFront.SymbolTable

variable {t u v : SymbolTable} {scope inner : ScopeId} {symbol : Symbol} {id : SymbolId}
  {name : String}

/-- Scopes lie in each other as a tree, whose root is the global scope, and every symbol is
declared in its scope. -/
structure Rooted (t : SymbolTable) : Prop where
  root : t.Known .global
  housed {scope : ScopeId} : t.Known scope → scope ≠ .global →
    ∃ outer, t.parent? scope = some outer
  child {scope inner : ScopeId} {name : String} : t.subScope? scope name = some inner →
    t.parent? inner = some scope ∧ t.name? inner = some name
  below {scope inner : ScopeId} : t.parent? inner = some scope →
    scope.index < inner.index ∧ ∃ name, t.subScope? scope name = some inner
  entry {scope : ScopeId} {name : String} {id : SymbolId} : t.local? scope name = some id →
    ∃ symbol, t.symbol? id = some symbol ∧ symbol.name = name ∧ symbol.scope = scope
  listed {id : SymbolId} {symbol : Symbol} : t.symbol? id = some symbol →
    t.local? symbol.scope symbol.name = some id

/-- Moreover, a scope in the global scope has the name of a symbol there. -/
structure Nested (t : SymbolTable) : Prop extends Rooted t where
  function {inner : ScopeId} {name : String} : t.subScope? .global name = some inner →
    ∃ id, t.local? .global name = some id

/-- The table `u` answers as `t` does what `t` answers, but for the signatures of
symbols. -/
structure Extends (t u : SymbolTable) : Prop where
  size : t.scopes.size ≤ u.scopes.size
  parent {scope : ScopeId} : t.Known scope → u.parent? scope = t.parent? scope
  name {scope : ScopeId} : t.Known scope → u.name? scope = t.name? scope
  declared {scope : ScopeId} {name : String} {id : SymbolId} :
    t.local? scope name = some id → u.local? scope name = some id
  opened {scope inner : ScopeId} {name : String} :
    t.subScope? scope name = some inner → u.subScope? scope name = some inner
  entry {id : SymbolId} {symbol : Symbol} : t.symbol? id = some symbol →
    ∃ type? params, u.symbol? id = some { symbol with type?, params }

/-- The table `u` is nested, and extends `t`. -/
structure Evolves (t u : SymbolTable) : Prop extends Extends t u where
  nested : u.Nested

theorem rooted_empty : empty.Rooted where
  root := Nat.zero_lt_one
  housed {scope} hs hne := by
    obtain ⟨s, hs⟩ := hs.exists_scope
    exact absurd (scope?_empty hs).1 hne
  child hc := by simp at hc
  below hp := by simp at hp
  entry hl := by simp at hl
  listed hx := by simp at hx

theorem nested_empty : empty.Nested where
  toRooted := rooted_empty
  function hc := by simp at hc

namespace Rooted

variable (h : t.Rooted)
include h

theorem known_inner (hc : t.subScope? scope name = some inner) : t.Known inner :=
  known_of_name? (h.child hc).2

theorem inner_ne_global (hc : t.subScope? scope name = some inner) : inner ≠ .global := by
  rintro rfl
  exact Nat.not_lt_zero _ (h.below (h.child hc).1).1

theorem global_orphan : t.parent? .global = none := by
  cases hp : t.parent? .global with
  | none => rfl
  | some outer => exact absurd (h.below hp).1 (Nat.not_lt_zero _)

theorem known_outer (hp : t.parent? inner = some scope) : t.Known scope := by
  obtain ⟨-, name, hname⟩ := h.below hp
  exact known_of_subScope? hname

theorem outwards {motive : ScopeId → Prop}
    (step : ∀ scope, (∀ outer, t.parent? scope = some outer → motive outer) → motive scope)
    (scope : ScopeId) : motive scope := by
  induction hi : scope.index using Nat.strongRecOn generalizing scope with
  | ind i ih =>
      apply step
      intro outer hp
      exact ih _ (hi ▸ (h.below hp).1) outer rfl

theorem inwards {motive : ScopeId → Prop}
    (step : ∀ scope, (∀ inner name, t.subScope? scope name = some inner → motive inner) →
      motive scope)
    (scope : ScopeId) : motive scope := by
  induction hi : t.scopes.size - scope.index using Nat.strongRecOn generalizing scope with
  | ind i ih =>
      apply step
      intro inner name hc
      have hlt := (h.below (h.child hc).1).1
      have hknown := h.known_inner hc
      unfold Known at hknown
      exact ih _ (by omega) inner rfl

/-- A scope is found where it lies, under its name. -/
theorem subScope?_of_parent? (hp : t.parent? inner = some scope) (hn : t.name? inner = some name) :
    t.subScope? scope name = some inner := by
  obtain ⟨-, other, hother⟩ := h.below hp
  have hname := (h.child hother).2.symm.trans hn
  rwa [Option.some.inj hname] at hother

end Rooted

namespace Extends

theorem refl (t : SymbolTable) : t.Extends t :=
  ⟨Nat.le_refl _, fun _ => rfl, fun _ => rfl, id, id, fun h => ⟨_, _, h⟩⟩

theorem known (h : t.Extends u) (hs : t.Known scope) : u.Known scope :=
  Nat.lt_of_lt_of_le hs h.size

theorem trans (h : t.Extends u) (k : u.Extends v) : t.Extends v where
  size := Nat.le_trans h.size k.size
  parent hs := (k.parent (h.known hs)).trans (h.parent hs)
  name hs := (k.name (h.known hs)).trans (h.name hs)
  declared := k.declared ∘ h.declared
  opened := k.opened ∘ h.opened
  entry hs := by
    obtain ⟨_, _, hu⟩ := h.entry hs
    obtain ⟨type?, params, hv⟩ := k.entry hu
    exact ⟨type?, params, hv⟩

end Extends

theorem Nested.refl (h : t.Nested) : t.Evolves t := ⟨.refl t, h⟩

theorem Evolves.trans (h : t.Evolves u) (k : u.Evolves v) : t.Evolves v :=
  ⟨h.toExtends.trans k.toExtends, k.nested⟩

/-! ## Additions -/

namespace Adds

variable (h : t.Adds scope symbol id u)
include h

theorem known_iff {s : ScopeId} : u.Known s ↔ t.Known s := by
  unfold Known
  rw [h.size]

theorem local?_of {s : ScopeId} {n : String} {i : SymbolId} (hl : t.local? s n = some i) :
    u.local? s n = some i := by
  rw [h.local_eq, if_neg]
  · exact hl
  · rintro ⟨rfl, rfl⟩
    rw [h.free] at hl
    simp at hl

theorem extend : t.Extends u where
  size := Nat.le_of_eq h.size.symm
  parent _ := h.parent_eq _
  name _ := h.name_eq _
  declared := h.local?_of
  opened hc := (h.sub_eq _ _).trans hc
  entry hs := ⟨_, _, h.symbol?_of hs⟩

theorem rooted (ht : t.Rooted) : u.Rooted where
  root := h.known_iff.mpr ht.root
  housed hs hne := by
    rw [h.parent_eq]
    exact ht.housed (h.known_iff.mp hs) hne
  child hc := by
    rw [h.sub_eq] at hc
    rw [h.parent_eq, h.name_eq]
    exact ht.child hc
  below hp := by
    rw [h.parent_eq] at hp
    simp only [h.sub_eq]
    exact ht.below hp
  entry {s n i} hl := by
    rw [h.local_eq] at hl
    split_ifs at hl with hn
    · rw [← Option.some.inj hl]
      exact ⟨_, h.entry, hn.2.symm, hn.1.symm⟩
    · obtain ⟨x, hx, hname⟩ := ht.entry hl
      exact ⟨x, h.symbol?_of hx, hname⟩
  listed {i x} hx := by
    rcases h.symbol?_cases hx with ⟨rfl, rfl⟩ | hx
    · exact h.declared
    · exact h.local?_of (ht.listed hx)

theorem nested (ht : t.Nested) : u.Nested where
  toRooted := h.rooted ht.toRooted
  function hc := by
    rw [h.sub_eq] at hc
    obtain ⟨i, hi⟩ := ht.function hc
    exact ⟨i, h.local?_of hi⟩

theorem evolve (ht : t.Nested) : t.Evolves u := ⟨h.extend, h.nested ht⟩

omit h in
/-- Behind a new symbol in the global scope, its name is free for a scope. -/
theorem subScope?_eq_none (h : t.Adds .global symbol id u) (ht : t.Nested) :
    u.subScope? .global symbol.name = none := by
  rw [h.sub_eq]
  cases hc : t.subScope? .global symbol.name with
  | none => rfl
  | some inner =>
      obtain ⟨other, hother⟩ := ht.function hc
      cases hother.symm.trans h.free

end Adds

namespace Opens

variable (h : t.Opens scope name inner u)
include h

theorem new : ¬ t.Known inner := by
  unfold Known
  rw [h.fresh]
  exact Nat.lt_irrefl _

theorem subScope?_of {s c : ScopeId} {n : String} (hc : t.subScope? s n = some c) :
    u.subScope? s n = some c := by
  rw [h.sub_eq, if_neg]
  · exact hc
  · rintro ⟨rfl, rfl⟩
    rw [h.free] at hc
    simp at hc

theorem extend : t.Extends u where
  size := by
    rw [h.size]
    exact Nat.le_succ _
  parent hs := (h.parent_eq _).trans (if_neg (hs.ne h.fresh))
  name hs := (h.name_eq _).trans (if_neg (hs.ne h.fresh))
  declared hl := (h.local_eq _ _).trans hl
  opened := h.subScope?_of
  entry {_ x} hs := ⟨x.type?, x.params, (h.symbol_eq _).trans hs⟩

theorem rooted (ht : t.Rooted) : u.Rooted where
  root := h.grow_known ht.root
  housed {s} hs hne := by
    rw [h.parent_eq]
    split_ifs with hs'
    · exact ⟨scope, rfl⟩
    · exact ht.housed ((h.known_cases hs).resolve_left hs') hne
  child {s c n} hc := by
    rcases h.subScope?_cases hc with ⟨rfl, rfl, rfl⟩ | hc
    · rw [h.parent_eq, h.name_eq, if_pos rfl, if_pos rfl]
      exact ⟨rfl, rfl⟩
    · have hne := (ht.known_inner hc).ne h.fresh
      rw [h.parent_eq, h.name_eq, if_neg hne, if_neg hne]
      exact ht.child hc
  below {s c} hp := by
    rw [h.parent_eq] at hp
    split_ifs at hp with hc
    · rw [← Option.some.inj hp, hc]
      exact ⟨h.fresh ▸ h.known, name, h.opened⟩
    · obtain ⟨hlt, n, hn⟩ := ht.below hp
      exact ⟨hlt, n, h.subScope?_of hn⟩
  entry hl := by
    rw [h.local_eq] at hl
    simp only [h.symbol_eq]
    exact ht.entry hl
  listed hx := by
    rw [h.symbol_eq] at hx
    rw [h.local_eq]
    exact ht.listed hx

/-- A scope in the global scope has to have the name of a symbol there. -/
theorem nested (ht : t.Nested)
    (hname : scope = .global → ∃ id, t.local? .global name = some id) : u.Nested where
  toRooted := h.rooted ht.toRooted
  function {c n} hc := by
    rw [h.local_eq]
    rcases h.subScope?_cases hc with ⟨hs, rfl, -⟩ | hc
    · exact hname hs.symm
    · exact ht.function hc

theorem evolve (ht : t.Nested) (hname : scope = .global → ∃ id, t.local? .global name = some id) :
    t.Evolves u :=
  ⟨h.extend, h.nested ht hname⟩

end Opens

section
variable {type? : Option TypeId} {params : List (String × Option TypeId)}

theorem symbol?_setSignature_of {i : SymbolId} (hs : t.symbol? i = some symbol) :
    ∃ type?' params', (t.setSignature id type? params).symbol? i =
      some { symbol with type? := type?', params := params' } := by
  rw [symbol?_setSignature]
  split_ifs
  · exact ⟨type?, params, by rw [hs, Option.map_some]⟩
  · exact ⟨symbol.type?, symbol.params, hs⟩

theorem extends_setSignature : t.Extends (t.setSignature id type? params) where
  size := Nat.le_refl _
  parent _ := rfl
  name _ := rfl
  declared hl := hl
  opened hc := hc
  entry := symbol?_setSignature_of

theorem Rooted.setSignature (h : t.Rooted) : (t.setSignature id type? params).Rooted where
  root := h.root
  housed := h.housed
  child := h.child
  below := h.below
  entry hl := by
    obtain ⟨x, hx, hname⟩ := h.entry hl
    obtain ⟨_, _, hsigned⟩ := symbol?_setSignature_of hx
    exact ⟨_, hsigned, hname⟩
  listed hx := by
    obtain ⟨y, hy, heq⟩ := symbol?_setSignature_cases hx
    have hlisted := h.listed hy
    rcases heq with rfl | rfl <;> exact hlisted

theorem Nested.setSignature (h : t.Nested) : (t.setSignature id type? params).Nested where
  toRooted := h.toRooted.setSignature
  function := h.function

theorem Nested.evolve_setSignature (h : t.Nested) : t.Evolves (t.setSignature id type? params) :=
  ⟨extends_setSignature, h.setSignature⟩

end

/-! ## Tables that are built -/

/-- The table is left of any sequence of additions to an empty one, and of changes of
signatures. -/
inductive Built : SymbolTable → Prop
  | empty : Built .empty
  | symbol {t u : SymbolTable} {scope : ScopeId} {symbol : Symbol} {id : SymbolId} :
      Built t → t.addSymbol? scope symbol = some (id, u) → Built u
  | scope {t u : SymbolTable} {outer inner : ScopeId} {name : String} :
      Built t → t.addSubScope? outer name = some (inner, u) → Built u
  | signature {t : SymbolTable} {id : SymbolId} {type? : Option TypeId}
      {params : List (String × Option TypeId)} : Built t → Built (t.setSignature id type? params)

theorem Built.rooted (h : t.Built) : t.Rooted := by
  induction h with
  | empty => exact rooted_empty
  | symbol _ hadd ih => exact (adds_of_addSymbol? hadd).rooted ih
  | scope _ hadd ih => exact (opens_of_addSubScope? hadd).rooted ih
  | signature _ ih => exact ih.setSignature

/-! ## Lookups -/

theorem parentBelow?_eq_none (hp : t.parent? scope = none) : t.parentBelow? scope = none := by
  unfold parentBelow?
  rw [← parent?, hp, Option.bind_none]

/-- A name is looked up in a scope first. What is found around it is preferred to a symbol
of another kind. -/
theorem Rooted.lookup?_eq (h : t.Rooted) (name : String) (preference : Preference)
    (scope : ScopeId) : t.lookup? name preference scope =
      match t.local? scope name with
      | none => (t.parent? scope).bind (t.lookup? name preference)
      | some found =>
        if t.isPreferred preference found then some found
        else (((t.parent? scope).bind (t.lookup? name preference)).filter
          (t.isPreferred preference)).or (some found) := by
  rw [lookup?]
  cases hp : t.parent? scope with
  | none =>
      rw [parentBelow?_eq_none hp]
      rfl
  | some outer =>
      rw [parentBelow?_of_parent? hp (h.below hp).1]
      rfl

end ScriptFront.SymbolTable
