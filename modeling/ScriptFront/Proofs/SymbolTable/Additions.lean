import Mathlib.Tactic.Common
import ScriptFront.SymbolTable.Lookup

/-!
# Additions to the symbol table

A table is seen through five questions: which symbol is declared in a scope under
a name, which scope lies in it under a name, which scope lies around it, what it is
called, and what a symbol is. For each addition it is said once what it answers to
them. A name is looked up by these answers alone.
-/
namespace ScriptFront.SymbolTable

variable {t u : SymbolTable} {scope inner : ScopeId} {symbol : Symbol} {id : SymbolId}
  {name : String}

/-- The table has a scope of this number. -/
def Known (t : SymbolTable) (scope : ScopeId) : Prop := scope.index < t.scopes.size

/-- The scope around a scope. -/
def parent? (t : SymbolTable) (scope : ScopeId) : Option ScopeId :=
  (t.scope? scope).bind Scope.parent?

def name? (t : SymbolTable) (scope : ScopeId) : Option String := (t.scope? scope).map Scope.name

theorem known_of_scope? {s : Scope} (h : t.scope? scope = some s) : t.Known scope := by
  unfold scope? at h
  exact (Array.getElem?_eq_some_iff.mp h).1

theorem known_of_local? (h : t.local? scope name = some id) : t.Known scope := by
  obtain ⟨s, hs, -⟩ := Option.bind_eq_some_iff.mp h
  exact known_of_scope? hs

theorem scope?_of_not_known (h : ¬ t.Known scope) : t.scope? scope = none := by
  unfold scope?
  exact Array.getElem?_eq_none (Nat.not_lt.mp h)

theorem local?_of_not_known (h : ¬ t.Known scope) : t.local? scope name = none := by
  rw [local?, scope?_of_not_known h, Option.bind_none]

theorem symbol_lt_of_symbol? (h : t.symbol? id = some symbol) : id.index < t.symbols.size := by
  unfold symbol? at h
  exact (Array.getElem?_eq_some_iff.mp h).1

theorem count_eq_of_isSome (h : ∀ id, (t.symbol? id).isSome = (u.symbol? id).isSome) :
    t.symbols.size = u.symbols.size := by
  have hlt : ∀ i : ℕ, i < t.symbols.size ↔ i < u.symbols.size := by
    intro i
    have hi := h ⟨i⟩
    unfold symbol? at hi
    rwa [Bool.eq_iff_iff, isSome_getElem?, isSome_getElem?] at hi
  exact Nat.le_antisymm (Nat.not_lt.mp fun hu => Nat.lt_irrefl _ ((hlt _).mp hu))
    (Nat.not_lt.mp fun ht => Nat.lt_irrefl _ ((hlt _).mpr ht))

theorem Known.exists_scope (h : t.Known scope) : ∃ s, t.scope? scope = some s :=
  ⟨_, Array.getElem?_eq_some_iff.mpr ⟨h, rfl⟩⟩

theorem known_of_name? (h : t.name? scope = some name) : t.Known scope := by
  obtain ⟨s, hs, -⟩ := Option.map_eq_some_iff.mp h
  exact known_of_scope? hs

theorem known_of_subScope? (h : t.subScope? scope name = some inner) : t.Known scope := by
  obtain ⟨s, hs, -⟩ := Option.bind_eq_some_iff.mp h
  exact known_of_scope? hs

theorem Known.ne (h : t.Known scope) (hi : inner.index = t.scopes.size) : scope ≠ inner := by
  rintro rfl
  unfold Known at h
  omega

/-! ## The empty table -/

theorem scope?_empty {s : Scope} (h : empty.scope? scope = some s) :
    scope = .global ∧ s = { name := "global", parent? := none } := by
  obtain ⟨i⟩ := scope
  cases i with
  | zero => exact ⟨rfl, (Option.some.inj h).symm⟩
  | succ i => simp [empty, scope?] at h

@[simp] theorem local?_empty : empty.local? scope name = none := by
  unfold local?
  cases h : empty.scope? scope with
  | none => rfl
  | some s => simp [(scope?_empty h).2]

@[simp] theorem subScope?_empty : empty.subScope? scope name = none := by
  unfold subScope?
  cases h : empty.scope? scope with
  | none => rfl
  | some s => simp [(scope?_empty h).2]

@[simp] theorem parent?_empty : empty.parent? scope = none := by
  unfold parent?
  cases h : empty.scope? scope with
  | none => rfl
  | some s => simp [(scope?_empty h).2]

@[simp] theorem symbol?_empty : empty.symbol? id = none := rfl

/-! ## What an addition changes -/

/-- The table `u` is `t` with another symbol in a scope, where its name was free. -/
structure Adds (t : SymbolTable) (scope : ScopeId) (symbol : Symbol) (id : SymbolId)
    (u : SymbolTable) : Prop where
  known : t.Known scope
  free : t.local? scope symbol.name = none
  fresh : id.index = t.symbols.size
  size : u.scopes.size = t.scopes.size
  local_eq : ∀ s n, u.local? s n =
    if s = scope ∧ n = symbol.name then some id else t.local? s n
  sub_eq : ∀ s n, u.subScope? s n = t.subScope? s n
  parent_eq : ∀ s, u.parent? s = t.parent? s
  name_eq : ∀ s, u.name? s = t.name? s
  symbol_eq : ∀ i, u.symbol? i = if i = id then some { symbol with scope } else t.symbol? i

/-- The table `u` is `t` with another scope in a scope, where its name was free. -/
structure Opens (t : SymbolTable) (scope : ScopeId) (name : String) (inner : ScopeId)
    (u : SymbolTable) : Prop where
  known : t.Known scope
  free : t.subScope? scope name = none
  fresh : inner.index = t.scopes.size
  size : u.scopes.size = t.scopes.size + 1
  local_eq : ∀ s n, u.local? s n = t.local? s n
  sub_eq : ∀ s n, u.subScope? s n =
    if s = scope ∧ n = name then some inner else t.subScope? s n
  parent_eq : ∀ s, u.parent? s = if s = inner then some scope else t.parent? s
  name_eq : ∀ s, u.name? s = if s = inner then some name else t.name? s
  symbol_eq : ∀ i, u.symbol? i = t.symbol? i

namespace Adds

variable (h : t.Adds scope symbol id u)
include h

theorem id_eq : id = ⟨t.symbols.size⟩ := by
  cases id
  exact congrArg SymbolId.mk h.fresh

theorem declared : u.local? scope symbol.name = some id := by
  rw [h.local_eq, if_pos ⟨rfl, rfl⟩]

theorem entry : u.symbol? id = some { symbol with scope } := by
  rw [h.symbol_eq, if_pos rfl]

theorem symbol?_of {i : SymbolId} {s : Symbol} (hs : t.symbol? i = some s) :
    u.symbol? i = some s := by
  rw [h.symbol_eq, if_neg]
  · exact hs
  · rintro rfl
    have hlt := symbol_lt_of_symbol? hs
    have hfresh := h.fresh
    omega

/-- A symbol is the new one or was there before. -/
theorem symbol?_cases {i : SymbolId} {s : Symbol} (hs : u.symbol? i = some s) :
    (i = id ∧ s = { symbol with scope }) ∨ t.symbol? i = some s := by
  rw [h.symbol_eq] at hs
  split_ifs at hs with hi
  · exact .inl ⟨hi, (Option.some.inj hs).symm⟩
  · exact .inr hs

end Adds

namespace Opens

variable (h : t.Opens scope name inner u)
include h

theorem inner_eq : inner = ⟨t.scopes.size⟩ := by
  cases inner
  exact congrArg ScopeId.mk h.fresh

theorem opened : u.subScope? scope name = some inner := by
  rw [h.sub_eq, if_pos ⟨rfl, rfl⟩]

theorem grow_known {s : ScopeId} (hs : t.Known s) : u.Known s := by
  have hsize := h.size
  unfold Known at hs ⊢
  omega

theorem known_cases {s : ScopeId} (hs : u.Known s) : s = inner ∨ t.Known s := by
  unfold Known at hs ⊢
  rw [h.size] at hs
  rcases Nat.lt_succ_iff_lt_or_eq.mp hs with hlt | heq
  · exact .inr hlt
  · cases s
    exact .inl ((congrArg ScopeId.mk heq).trans h.inner_eq.symm)

theorem subScope?_cases {s c : ScopeId} {n : String} (hc : u.subScope? s n = some c) :
    (s = scope ∧ n = name ∧ c = inner) ∨ t.subScope? s n = some c := by
  rw [h.sub_eq] at hc
  split_ifs at hc with hs
  · exact .inl ⟨hs.1, hs.2, (Option.some.inj hc).symm⟩
  · exact .inr hc

end Opens

theorem scope?_setScope {s : Scope} (h : t.Known scope) (other : ScopeId) :
    (t.setScope scope s).scope? other = if other = scope then some s else t.scope? other := by
  unfold setScope scope?
  rw [Array.getElem?_setIfInBounds]
  by_cases ho : other = scope
  · have hlt : scope.index < t.scopes.size := h
    rw [ho, if_pos rfl, if_pos rfl, if_pos hlt]
  · have hne : scope.index ≠ other.index := by
      intro he
      apply ho
      cases other
      cases scope
      simp_all
    rw [if_neg hne, if_neg ho]

theorem getElem?_insert_name {β : Type} (m : Std.TreeMap String β) (b : β) (n : String) :
    (m.insert name b)[n]? = if n = name then some b else m[n]? := by
  rw [Std.TreeMap.getElem?_insert]
  simp only [Std.LawfulEqCmp.compare_eq_iff_eq]
  simp only [eq_comm]

theorem adds_of_addSymbol? (h : t.addSymbol? scope symbol = some (id, u)) :
    t.Adds scope symbol id u := by
  unfold addSymbol? at h
  obtain ⟨s, hs, h⟩ := Option.bind_eq_some_iff.mp h
  have hknown := known_of_scope? hs
  split_ifs at h with hfree
  simp only [Option.some.injEq, Prod.mk.injEq] at h
  obtain ⟨rfl, hu⟩ := h
  have hscope : ∀ other, u.scope? other = if other = scope then some { s with
      symbols := s.symbols.insert symbol.name ⟨t.symbols.size⟩ } else t.scope? other := by
    rw [← hu]
    exact scope?_setScope hknown
  constructor
  case known => exact hknown
  case free => simpa [local?, hs] using hfree
  case fresh => rfl
  case size => simp [← hu, setScope]
  case local_eq =>
    intro other n
    unfold local?
    rw [hscope]
    by_cases ho : other = scope
    · simp [ho, hs, getElem?_insert_name]
    · simp [ho]
  case sub_eq =>
    intro other n
    unfold subScope?
    rw [hscope]
    by_cases ho : other = scope
    · simp [ho, hs]
    · simp [ho]
  case parent_eq =>
    intro other
    unfold parent?
    rw [hscope]
    by_cases ho : other = scope
    · simp [ho, hs]
    · simp [ho]
  case name_eq =>
    intro other
    unfold name?
    rw [hscope]
    by_cases ho : other = scope
    · simp [ho, hs]
    · simp [ho]
  case symbol_eq =>
    rintro ⟨i⟩
    rw [← hu]
    simp only [symbol?, setScope, Array.getElem?_push, SymbolId.mk.injEq]

theorem opens_of_addSubScope? (h : t.addSubScope? scope name = some (inner, u)) :
    t.Opens scope name inner u := by
  unfold addSubScope? at h
  obtain ⟨s, hs, h⟩ := Option.bind_eq_some_iff.mp h
  have hknown := known_of_scope? hs
  split_ifs at h with hfree
  simp only [Option.some.injEq, Prod.mk.injEq] at h
  obtain ⟨rfl, hu⟩ := h
  have hscope : ∀ other, u.scope? other =
      if other = ⟨t.scopes.size⟩ then some { name, parent? := some scope }
      else if other = scope then
        some { s with children := s.children.insert name ⟨t.scopes.size⟩ }
      else t.scope? other := by
    rintro ⟨i⟩
    rw [← scope?_setScope hknown, ← hu]
    simp only [scope?, Array.getElem?_push, ScopeId.mk.injEq]
    simp [setScope]
  have hnone : t.scope? ⟨t.scopes.size⟩ = none := scope?_of_not_known (Nat.lt_irrefl _)
  have hne : scope ≠ ⟨t.scopes.size⟩ := hknown.ne rfl
  constructor
  case known => exact hknown
  case free => simpa [subScope?, hs] using hfree
  case fresh => rfl
  case size => simp [← hu, setScope]
  case local_eq =>
    intro other n
    unfold local?
    rw [hscope]
    by_cases hn : other = ⟨t.scopes.size⟩
    · simp [hn, hnone]
    · by_cases ho : other = scope
      · simp [ho, hs, hne]
      · simp [ho, hn]
  case sub_eq =>
    intro other n
    unfold subScope?
    rw [hscope]
    by_cases hn : other = ⟨t.scopes.size⟩
    · simp [hn, hnone, hne.symm]
    · by_cases ho : other = scope
      · simp [ho, hs, hne, getElem?_insert_name]
      · simp [ho, hn]
  case parent_eq =>
    intro other
    unfold parent?
    rw [hscope]
    by_cases hn : other = ⟨t.scopes.size⟩
    · simp [hn]
    · by_cases ho : other = scope
      · simp [ho, hs, hne]
      · simp [ho, hn]
  case name_eq =>
    intro other
    unfold name?
    rw [hscope]
    by_cases hn : other = ⟨t.scopes.size⟩
    · simp [hn]
    · by_cases ho : other = scope
      · simp [ho, hs, hne]
      · simp [ho, hn]
  case symbol_eq =>
    intro i
    rw [← hu]
    rfl

/-- Another signature changes the answers about its symbol only. -/
theorem symbol?_setSignature (type? : Option TypeId) (params : List (String × Option TypeId))
    (i : SymbolId) : (t.setSignature id type? params).symbol? i =
      if i = id then (t.symbol? i).map fun s => { s with type?, params } else t.symbol? i := by
  cases i
  cases id
  simp only [symbol?, setSignature, Array.getElem?_modify, SymbolId.mk.injEq, eq_comm]

theorem symbol?_setSignature_cases {type? : Option TypeId} {params : List (String × Option TypeId)}
    {i : SymbolId} {s : Symbol} (hs : (t.setSignature id type? params).symbol? i = some s) :
    ∃ old, t.symbol? i = some old ∧ (s = { old with type?, params } ∨ s = old) := by
  rw [symbol?_setSignature] at hs
  split_ifs at hs
  · obtain ⟨old, hold, rfl⟩ := Option.map_eq_some_iff.mp hs
    exact ⟨old, hold, .inl rfl⟩
  · exact ⟨s, hs, .inr rfl⟩

/-- A symbol can be added where a scope is, unless its name is taken there. -/
theorem addSymbol?_eq_none_iff : t.addSymbol? scope symbol = none ↔
    (t.Known scope → (t.local? scope symbol.name).isSome) := by
  by_cases hknown : t.Known scope
  · obtain ⟨s, hs⟩ := hknown.exists_scope
    unfold addSymbol? local?
    rw [hs, Option.bind_some, Option.bind_some]
    split_ifs with hfree
    · simpa [hknown] using hfree
    · simpa [hknown] using hfree
  · unfold addSymbol?
    rw [scope?_of_not_known hknown]
    simp [hknown]

/-- A scope can be opened where a scope is, unless its name is taken there. -/
theorem addSubScope?_eq_none_iff : t.addSubScope? scope name = none ↔
    (t.Known scope → (t.subScope? scope name).isSome) := by
  by_cases hknown : t.Known scope
  · obtain ⟨s, hs⟩ := hknown.exists_scope
    unfold addSubScope? subScope?
    rw [hs, Option.bind_some, Option.bind_some]
    split_ifs with hfree
    · simpa [hknown] using hfree
    · simpa [hknown] using hfree
  · unfold addSubScope?
    rw [scope?_of_not_known hknown]
    simp [hknown]

theorem subScope?_of_not_known (h : ¬ t.Known scope) :
    t.subScope? scope name = none := by
  rw [subScope?, scope?_of_not_known h, Option.bind_none]

theorem Known.addSubScope? (h : t.Known scope) (hs : t.addSubScope? scope name = none) :
    ∃ inner, t.subScope? scope name = some inner :=
  Option.isSome_iff_exists.mp (addSubScope?_eq_none_iff.mp hs h)

theorem Known.opens (h : t.Known scope) (hfree : t.subScope? scope name = none) :
    ∃ inner u, t.addSubScope? scope name = some (inner, u) ∧ t.Opens scope name inner u := by
  cases hadd : t.addSubScope? scope name with
  | some a => exact ⟨a.1, a.2, rfl, opens_of_addSubScope? hadd⟩
  | none =>
      obtain ⟨inner, hinner⟩ := h.addSubScope? hadd
      rw [hfree] at hinner
      cases hinner

/-- Nothing is declared in a scope that was just opened. -/
theorem Opens.addSymbol?_ne_none (h : t.Opens scope name inner u) :
    u.addSymbol? inner symbol ≠ none := by
  have hnew : ¬ t.Known inner := fun hknown => hknown.ne h.fresh rfl
  have hknown : u.Known inner := known_of_name? (by rw [h.name_eq, if_pos rfl])
  intro hnone
  have htaken := addSymbol?_eq_none_iff.mp hnone hknown
  rw [h.local_eq, local?_of_not_known hnew] at htaken
  cases htaken

/-! ## Lookups -/

theorem parentBelow?_of_parent? {p : ScopeId} (h : t.parent? scope = some p)
    (hlt : p.index < scope.index) : t.parentBelow? scope = some ⟨p, hlt⟩ := by
  unfold parentBelow?
  unfold parent? at h
  rw [h, Option.bind_some, dif_pos hlt]

/-- What a lookup finds is declared somewhere. -/
theorem exists_local?_of_lookup? {preference : Preference}
    (h : t.lookup? name preference scope = some id) : ∃ s, t.local? s name = some id := by
  induction scope using lookup?.induct t name preference with
  | case1 scope hl p hlt hp ih =>
      rw [lookup?, hl, hp] at h
      exact ih h
  | case2 scope hl hp =>
      rw [lookup?, hl, hp] at h
      simp at h
  | case3 scope found hl hpref =>
      rw [lookup?, hl] at h
      simp only [hpref, if_true, Option.some.injEq] at h
      exact ⟨scope, h ▸ hl⟩
  | case4 scope found hl hpref p hlt hp ih =>
      rw [lookup?, hl, hp] at h
      simp only [hpref, Bool.false_eq_true, if_false, Option.or_eq_some_iff] at h
      rcases h with h | ⟨-, h⟩
      · exact ih (Option.filter_eq_some_iff.mp h).1
      · exact ⟨scope, (Option.some.inj h) ▸ hl⟩
  | case5 scope found hl hpref hp =>
      rw [lookup?, hl, hp] at h
      simp only [hpref, Bool.false_eq_true, if_false, Option.some.injEq] at h
      exact ⟨scope, h ▸ hl⟩

/-- Where every kind of symbol is welcome, the nearest declaration is found. -/
theorem lookup?_any_of_local? (h : t.local? scope name = some id)
    (hs : ∃ s, t.symbol? id = some s) : t.lookup? name .any scope = some id := by
  obtain ⟨s, hs⟩ := hs
  have hpref : t.isPreferred .any id = true := by simp [isPreferred, hs, Preference.accepts]
  rw [lookup?, h]
  simp only [hpref, if_true]

theorem lookup?_of_parent? {preference : Preference} {p : ScopeId}
    (h : t.local? scope name = none) (hp : t.parent? scope = some p)
    (hlt : p.index < scope.index) :
    t.lookup? name preference scope = t.lookup? name preference p := by
  rw [lookup?, h, parentBelow?_of_parent? hp hlt]

end ScriptFront.SymbolTable
