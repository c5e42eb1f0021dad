import ScriptFront.Proofs.SymbolTable.Confined

/-!
# Tables that grow side by side

Two runs that declare the same, each in a scope of its own table where the name is free,
add the same scopes and symbols in the same order. So the new numbers of one table are those
of the other, shifted by what was there before, and the new parts of both tables answer
alike. All of it is confined to that name.
-/
namespace ScriptFront

/-! ## Answers that may be missing -/

section
variable {α β : Type} {R : α → β → Prop} {a? : Option α} {b? : Option β}

theorem isSome_eq_of_rel (h : Option.Rel R a? b?) : a?.isSome = b?.isSome := by
  cases h <;> rfl

theorem rel_of_none_iff (hnone : a? = none ↔ b? = none)
    (h : ∀ a b, a? = some a → b? = some b → R a b) : Option.Rel R a? b? := by
  cases a? with
  | none => exact hnone.mp rfl ▸ .none
  | some a =>
      cases b? with
      | none => cases hnone.mpr rfl
      | some b => exact .some (h a b rfl rfl)

end

/-! ## Sites -/

/-- Where a run begins: the table in front of it, and the scope in which it declares. -/
structure Site where
  table : SymbolTable
  scope : ScopeId

namespace Site

variable {σ τ : Site} {name n : String} {s s' r r' : ScopeId} {i i' j j' : SymbolId}

/-- The scopes are opened in the same step behind both tables. -/
def NewScopes (σ τ : Site) (s s' : ScopeId) : Prop :=
  ∃ k, s.index = σ.table.scopes.size + k ∧ s'.index = τ.table.scopes.size + k

/-- The symbols are declared in the same step behind both tables. -/
def NewSymbols (σ τ : Site) (i i' : SymbolId) : Prop :=
  ∃ k, i.index = σ.table.symbols.size + k ∧ i'.index = τ.table.symbols.size + k

/-- The runs begin in these scopes, or the scopes are opened in the same step. -/
def SameScope (σ τ : Site) (s s' : ScopeId) : Prop :=
  s = σ.scope ∧ s' = τ.scope ∨ NewScopes σ τ s s'

/-- Both runs may declare `n` in these scopes: in the scope where they begin it is the
name that is free there. -/
inductive Within (σ τ : Site) (name : String) : ScopeId → ScopeId → String → Prop
  | outer : Within σ τ name σ.scope τ.scope name
  | new {s s' : ScopeId} {n : String} : NewScopes σ τ s s' → Within σ τ name s s' n

/-- The scope in which the run declares is one of the table. -/
def Known (σ : Site) : Prop := σ.table.Known σ.scope

theorem NewScopes.not_known (h : NewScopes σ τ s s') :
    ¬ σ.table.Known s ∧ ¬ τ.table.Known s' := by
  obtain ⟨k, hs, hs'⟩ := h
  unfold SymbolTable.Known
  omega

theorem NewScopes.eq_iff (hs : NewScopes σ τ s s') (hr : NewScopes σ τ r r') :
    s = r ↔ s' = r' := by
  obtain ⟨k, hs, hs'⟩ := hs
  obtain ⟨l, hr, hr'⟩ := hr
  cases s
  cases s'
  cases r
  cases r'
  simp only [ScopeId.mk.injEq]
  dsimp only at hs hs' hr hr'
  omega

theorem NewSymbols.eq_iff (hi : NewSymbols σ τ i i') (hj : NewSymbols σ τ j j') :
    i = j ↔ i' = j' := by
  obtain ⟨k, hi, hi'⟩ := hi
  obtain ⟨l, hj, hj'⟩ := hj
  cases i
  cases i'
  cases j
  cases j'
  simp only [SymbolId.mk.injEq]
  dsimp only at hi hi' hj hj'
  omega

/-- A scope where a run begins is no new one. -/
theorem NewScopes.ne_scope (h : NewScopes σ τ s s') (hσ : σ.Known) (hτ : τ.Known) :
    s ≠ σ.scope ∧ s' ≠ τ.scope :=
  ⟨fun he => h.not_known.1 (he ▸ hσ), fun he => h.not_known.2 (he ▸ hτ)⟩

theorem SameScope.eq_iff (hσ : σ.Known) (hτ : τ.Known) (hs : SameScope σ τ s s')
    (hr : SameScope σ τ r r') : s = r ↔ s' = r' := by
  rcases hs with ⟨rfl, rfl⟩ | hs
  · rcases hr with ⟨rfl, rfl⟩ | hr
    · exact iff_of_true rfl rfl
    · obtain ⟨hne, hne'⟩ := hr.ne_scope hσ hτ
      exact iff_of_false hne.symm hne'.symm
  · rcases hr with ⟨rfl, rfl⟩ | hr
    · obtain ⟨hne, hne'⟩ := hs.ne_scope hσ hτ
      exact iff_of_false hne hne'
    · exact hs.eq_iff hr

theorem Within.sameScope (h : Within σ τ name s s' n) : SameScope σ τ s s' := by
  cases h with
  | outer => exact .inl ⟨rfl, rfl⟩
  | new hs => exact .inr hs

theorem Within.global (hσ : σ.scope = .global) (hτ : τ.scope = .global) :
    Within σ τ name .global .global name := by
  have houter : Within σ τ name σ.scope τ.scope name := .outer
  rwa [hσ, hτ] at houter

/-- What is declared there is confined to the name. -/
theorem Within.confined (h : Within σ τ name s s' n) :
    (s = σ.scope ∧ n ∈ [name] ∨ ¬ σ.table.Known s) ∧
      (s' = τ.scope ∧ n ∈ [name] ∨ ¬ τ.table.Known s') := by
  cases h with
  | outer => exact ⟨.inl ⟨rfl, List.mem_singleton.mpr rfl⟩, .inl ⟨rfl, List.mem_singleton.mpr rfl⟩⟩
  | new hs => exact ⟨.inr hs.not_known.1, .inr hs.not_known.2⟩

end Site

open Site (NewScopes NewSymbols SameScope Within)

variable {σ τ : Site} {name n : String} {s s' inner inner' : ScopeId} {i i' : SymbolId}
  {x y : Symbol} {t u t' u' : SymbolTable}

/-- The symbols have the same name and mean the same, and both runs have declared them in
the same scope. -/
structure Symbol.Twin (σ τ : Site) (x y : Symbol) : Prop where
  name : x.name = y.name
  meaning : x.meaning = y.meaning
  scope : SameScope σ τ x.scope y.scope

namespace SymbolTable

/-- Behind the sites, the tables `t` and `u` have the same. -/
structure Beside (σ τ : Site) (name : String) (t u : SymbolTable) : Prop where
  known : σ.Known ∧ τ.Known
  scopes : NewScopes σ τ ⟨t.scopes.size⟩ ⟨u.scopes.size⟩
  symbols : NewSymbols σ τ ⟨t.symbols.size⟩ ⟨u.symbols.size⟩
  local_rel {s s' : ScopeId} {n : String} : Within σ τ name s s' n →
    Option.Rel (NewSymbols σ τ) (t.local? s n) (u.local? s' n)
  sub_rel {s s' : ScopeId} {n : String} : Within σ τ name s s' n →
    Option.Rel (NewScopes σ τ) (t.subScope? s n) (u.subScope? s' n)
  parent_rel {s s' : ScopeId} : NewScopes σ τ s s' →
    Option.Rel (SameScope σ τ) (t.parent? s) (u.parent? s')
  symbol_rel {i i' : SymbolId} : NewSymbols σ τ i i' →
    Option.Rel (Symbol.Twin σ τ) (t.symbol? i) (u.symbol? i')
  left : σ.table.Confined σ.scope [name] t
  right : τ.table.Confined τ.scope [name] u

namespace Beside

/-- At the sites nothing is new yet. -/
theorem start (hσ : σ.Known) (hτ : τ.Known) (hl : σ.table.local? σ.scope name = none)
    (hl' : τ.table.local? τ.scope name = none) (hs : σ.table.subScope? σ.scope name = none)
    (hs' : τ.table.subScope? τ.scope name = none) : Beside σ τ name σ.table τ.table where
  known := ⟨hσ, hτ⟩
  scopes := ⟨0, rfl, rfl⟩
  symbols := ⟨0, rfl, rfl⟩
  local_rel h := by
    cases h with
    | outer =>
        rw [hl, hl']
        exact .none
    | new h =>
        rw [local?_of_not_known h.not_known.1, local?_of_not_known h.not_known.2]
        exact .none
  sub_rel h := by
    cases h with
    | outer =>
        rw [hs, hs']
        exact .none
    | new h =>
        rw [subScope?_of_not_known h.not_known.1, subScope?_of_not_known h.not_known.2]
        exact .none
  parent_rel h := by
    unfold parent?
    rw [scope?_of_not_known h.not_known.1, scope?_of_not_known h.not_known.2]
    exact .none
  symbol_rel := by
    rintro ⟨i⟩ ⟨i'⟩ ⟨k, rfl, rfl⟩
    unfold symbol?
    rw [Array.getElem?_eq_none (Nat.le_add_right _ _),
      Array.getElem?_eq_none (Nat.le_add_right _ _)]
    exact .none
  left := .refl _ _ _
  right := .refl _ _ _

/-- Where a name is free in the global scopes, runs may begin. -/
theorem start_global (ht : t.Nested) (hu : u.Nested) (hl : t.local? .global name = none)
    (hl' : u.local? .global name = none) :
    Beside ⟨t, .global⟩ ⟨u, .global⟩ name t u := by
  have hclosed {v : SymbolTable} (hv : v.Nested) (hl : v.local? .global name = none) :
      v.subScope? .global name = none := by
    cases hc : v.subScope? .global name with
    | none => rfl
    | some inner =>
        obtain ⟨id, hid⟩ := hv.function hc
        cases hl.symm.trans hid
  exact .start ht.root hu.root hl hl' (hclosed ht hl) (hclosed hu hl')

variable (h : Beside σ τ name t u)
include h

theorem meaning?_eq (hs : Within σ τ name s s' n) : t.meaning? s n = u.meaning? s' n := by
  have hlocal := h.local_rel hs
  unfold meaning?
  generalize t.local? s n = i? at hlocal
  generalize u.local? s' n = i?' at hlocal
  cases hlocal with
  | none => rfl
  | some hi =>
      have hsymbol := h.symbol_rel hi
      rw [Option.bind_some, Option.bind_some]
      generalize t.symbol? _ = x? at hsymbol
      generalize u.symbol? _ = y? at hsymbol
      cases hsymbol with
      | none => rfl
      | some hxy => exact congrArg some hxy.meaning

theorem known_iff (hs : SameScope σ τ s s') : t.Known s ↔ u.Known s' := by
  rcases hs with ⟨rfl, rfl⟩ | ⟨k, hs, hs'⟩
  · exact iff_of_true (h.left.known h.known.1) (h.right.known h.known.2)
  · obtain ⟨l, ht, hu⟩ := h.scopes
    unfold Known
    dsimp only at ht hu
    omega

theorem adds (hs : Within σ τ name s s' x.name) (hname : x.name = y.name)
    (hmeaning : x.meaning = y.meaning) (hx : t.Adds s x i t') (hy : u.Adds s' y i' u') :
    NewSymbols σ τ i i' ∧ Beside σ τ name t' u' := by
  have hi : NewSymbols σ τ i i' := hx.id_eq ▸ hy.id_eq ▸ h.symbols
  have hplace {r r' : ScopeId} {n : String} (hr : Within σ τ name r r' n) :
      (r = s ∧ n = x.name) ↔ (r' = s' ∧ n = y.name) := by
    rw [hr.sameScope.eq_iff h.known.1 h.known.2 hs.sameScope, hname]
  refine ⟨hi, ?_⟩
  constructor
  case known => exact h.known
  case scopes =>
    rw [hx.size, hy.size]
    exact h.scopes
  case symbols =>
    obtain ⟨k, hk, hk'⟩ := h.symbols
    rw [hx.symbols_eq, hy.symbols_eq, Array.size_push, Array.size_push]
    exact ⟨k + 1, congrArg Nat.succ hk, congrArg Nat.succ hk'⟩
  case local_rel =>
    intro r r' n hr
    rw [hx.local_eq, hy.local_eq, if_congr (hplace hr) rfl rfl]
    split_ifs
    · exact .some hi
    · exact h.local_rel hr
  case sub_rel =>
    intro r r' n hr
    rw [hx.sub_eq, hy.sub_eq]
    exact h.sub_rel hr
  case parent_rel =>
    intro r r' hr
    rw [hx.parent_eq, hy.parent_eq]
    exact h.parent_rel hr
  case symbol_rel =>
    intro j j' hj
    rw [hx.symbol_eq, hy.symbol_eq, if_congr (hj.eq_iff hi) rfl rfl]
    split_ifs
    · exact .some ⟨hname, hmeaning, hs.sameScope⟩
    · exact h.symbol_rel hj
  case left => exact h.left.adds hs.confined.1 hx
  case right => exact h.right.adds (hname ▸ hs.confined.2) hy

theorem opens (hs : Within σ τ name s s' n) (ht : t.Opens s n inner t')
    (hu : u.Opens s' n inner' u') : NewScopes σ τ inner inner' ∧ Beside σ τ name t' u' := by
  have hinner : NewScopes σ τ inner inner' := ht.inner_eq ▸ hu.inner_eq ▸ h.scopes
  have hplace {r r' : ScopeId} {m : String} (hr : Within σ τ name r r' m) :
      (r = s ∧ m = n) ↔ (r' = s' ∧ m = n) := by
    rw [hr.sameScope.eq_iff h.known.1 h.known.2 hs.sameScope]
  refine ⟨hinner, ?_⟩
  constructor
  case known => exact h.known
  case scopes =>
    obtain ⟨k, hk, hk'⟩ := h.scopes
    rw [ht.size, hu.size]
    exact ⟨k + 1, congrArg Nat.succ hk, congrArg Nat.succ hk'⟩
  case symbols =>
    rw [ht.symbols_eq, hu.symbols_eq]
    exact h.symbols
  case local_rel =>
    intro r r' m hr
    rw [ht.local_eq, hu.local_eq]
    exact h.local_rel hr
  case sub_rel =>
    intro r r' m hr
    rw [ht.sub_eq, hu.sub_eq, if_congr (hplace hr) rfl rfl]
    split_ifs
    · exact .some hinner
    · exact h.sub_rel hr
  case parent_rel =>
    intro r r' hr
    rw [ht.parent_eq, hu.parent_eq, if_congr (hr.eq_iff hinner) rfl rfl]
    split_ifs
    · exact .some hs.sameScope
    · exact h.parent_rel hr
  case symbol_rel =>
    intro j j' hj
    rw [ht.symbol_eq, hu.symbol_eq]
    exact h.symbol_rel hj
  case left => exact h.left.opens hs.confined.1 ht
  case right => exact h.right.opens hs.confined.2 hu

/-- The same signature is given to both symbols. -/
theorem setSignature (hi : NewSymbols σ τ i i') (type? : Option TypeId)
    (params : List (String × Option TypeId)) :
    Beside σ τ name (t.setSignature i type? params) (u.setSignature i' type? params) where
  known := h.known
  scopes := h.scopes
  symbols := by
    unfold SymbolTable.setSignature
    rw [Array.size_modify, Array.size_modify]
    exact h.symbols
  local_rel := h.local_rel
  sub_rel := h.sub_rel
  parent_rel := h.parent_rel
  symbol_rel {j j'} hj := by
    have hrel := h.symbol_rel hj
    rw [symbol?_setSignature, symbol?_setSignature, if_congr (hj.eq_iff hi) rfl rfl]
    split_ifs
    · generalize t.symbol? j = x? at hrel
      generalize u.symbol? j' = y? at hrel
      cases hrel with
      | none => exact .none
      | some hxy =>
          refine .some ⟨hxy.name, ?_, hxy.scope⟩
          simp only [Symbol.meaning, Symbol.Meaning.mk.injEq, and_true]
          exact ⟨congrArg Symbol.Meaning.kind hxy.meaning,
            congrArg Symbol.Meaning.place hxy.meaning⟩
    · exact hrel
  left := by
    obtain ⟨k, hk, -⟩ := hi
    exact h.left.setSignature (hk ▸ Nat.le_add_right _ _) type? params
  right := by
    obtain ⟨k, -, hk⟩ := hi
    exact h.right.setSignature (hk ▸ Nat.le_add_right _ _) type? params

/-! ## Additions that may fail -/

theorem addSymbol? (hs : Within σ τ name s s' x.name) (hname : x.name = y.name)
    (hmeaning : x.meaning = y.meaning) :
    Option.Rel (fun a b => NewSymbols σ τ a.1 b.1 ∧ Beside σ τ name a.2 b.2)
      (t.addSymbol? s x) (u.addSymbol? s' y) := by
  apply rel_of_none_iff
  · rw [addSymbol?_eq_none_iff, addSymbol?_eq_none_iff, h.known_iff hs.sameScope, ← hname,
      isSome_eq_of_rel (h.local_rel hs)]
  · intro a b ha hb
    exact h.adds hs hname hmeaning (adds_of_addSymbol? ha) (adds_of_addSymbol? hb)

theorem addSubScope? (hs : Within σ τ name s s' n) :
    Option.Rel (fun a b => NewScopes σ τ a.1 b.1 ∧ Beside σ τ name a.2 b.2)
      (t.addSubScope? s n) (u.addSubScope? s' n) := by
  apply rel_of_none_iff
  · rw [addSubScope?_eq_none_iff, addSubScope?_eq_none_iff, h.known_iff hs.sameScope,
      isSome_eq_of_rel (h.sub_rel hs)]
  · intro a b ha hb
    exact h.opens hs (opens_of_addSubScope? ha) (opens_of_addSubScope? hb)

end Beside

end SymbolTable

end ScriptFront
