import ScriptFront.Proofs.SymbolTable.Nesting

/-!
# Tables without hollow scopes

A scope in which nothing is declared, nor in the scopes inside of it, can be left out of
a table without a trace, but for the numbers of the other scopes. Symbols keep their
numbers, and every name stands for what it stood for.
-/
namespace ScriptFront

/-- The symbol with another number for its scope. -/
def Symbol.moved (φ : ScopeId → ScopeId) (s : Symbol) : Symbol := { s with scope := φ s.scope }

namespace SymbolTable

variable {φ ψ χ : ScopeId → ScopeId} {t t' u u' v : SymbolTable} {scope inner outer : ScopeId}
  {symbol : Symbol} {id : SymbolId} {name : String}

/-! ## Padding -/

/-- The table `t'` is `t` with further scopes, in which nothing is declared. -/
structure Pads (t t' : SymbolTable) : Prop extends Evolves t t' where
  local_eq (scope : ScopeId) (name : String) : t'.local? scope name = t.local? scope name
  symbol_eq (id : SymbolId) : t'.symbol? id = t.symbol? id

theorem Nested.pads (h : t.Nested) : t.Pads t :=
  ⟨h.refl, fun _ _ => rfl, fun _ => rfl⟩

theorem Pads.trans (h : t.Pads u) (k : u.Pads v) : t.Pads v where
  toEvolves := h.toEvolves.trans k.toEvolves
  local_eq s n := (k.local_eq s n).trans (h.local_eq s n)
  symbol_eq i := (k.symbol_eq i).trans (h.symbol_eq i)

theorem Opens.pads (h : t.Opens scope name inner u) (ht : t.Nested)
    (hname : scope = .global → ∃ id, t.local? .global name = some id) : t.Pads u :=
  ⟨h.evolve ht hname, h.local_eq, h.symbol_eq⟩

/-! ## Pruning -/

/-- The table `u` is `t` without some scopes in which nothing is declared. Each scope of `u`
has the number in `t` that `φ` gives to it. -/
structure Pruned (φ : ScopeId → ScopeId) (u t : SymbolTable) : Prop where
  nested : u.Nested
  whole : t.Nested
  root : φ .global = .global
  known {scope : ScopeId} : u.Known scope → t.Known (φ scope)
  injective {scope scope' : ScopeId} :
    u.Known scope → u.Known scope' → φ scope = φ scope' → scope = scope'
  parent {scope : ScopeId} : u.Known scope → t.parent? (φ scope) = (u.parent? scope).map φ
  name {scope : ScopeId} : u.Known scope → t.name? (φ scope) = u.name? scope
  declared {scope : ScopeId} (name : String) : u.Known scope →
    t.local? (φ scope) name = u.local? scope name
  kept {scope : ScopeId} {name : String} {id : SymbolId} : t.local? scope name = some id →
    ∃ s, u.Known s ∧ φ s = scope
  symbol (id : SymbolId) : t.symbol? id = (u.symbol? id).map (Symbol.moved φ)

/-- The scopes of `u` are scopes of `u'`, with the same numbers. -/
def Keeps (φ : ScopeId → ScopeId) (u : SymbolTable) (φ' : ScopeId → ScopeId) (u' : SymbolTable) :
    Prop :=
  ∀ scope, u.Known scope → u'.Known scope ∧ φ' scope = φ scope

theorem Keeps.refl (φ : ScopeId → ScopeId) (u : SymbolTable) : Keeps φ u φ u := fun _ h => ⟨h, rfl⟩

theorem Keeps.trans (h : Keeps φ t ψ u) (k : Keeps ψ u χ v) : Keeps φ t χ v := by
  intro s hs
  obtain ⟨hu, hψ⟩ := h s hs
  obtain ⟨hv, hχ⟩ := k s hu
  exact ⟨hv, hχ.trans hψ⟩

theorem pruned_empty : Pruned (fun scope => scope) empty empty where
  nested := nested_empty
  whole := nested_empty
  root := rfl
  known h := h
  injective _ _ h := h
  parent _ := Option.map_id'.symm
  name _ := rfl
  declared _ _ := rfl
  kept := by simp
  symbol _ := rfl

namespace Pruned

variable (h : Pruned φ u t)
include h

theorem opened (hc : u.subScope? scope name = some inner) :
    t.subScope? (φ scope) name = some (φ inner) := by
  have hknown := h.nested.known_inner hc
  obtain ⟨hparent, hname⟩ := h.nested.child hc
  apply h.whole.subScope?_of_parent?
  · rw [h.parent hknown, hparent, Option.map_some]
  · rw [h.name hknown, hname]

theorem ne_global (hs : u.Known scope) (hroot : scope ≠ .global) : φ scope ≠ .global := by
  intro heq
  exact hroot (h.injective hs h.nested.root (heq.trans h.root.symm))

/-- A scope that lies in `t` where none lies in `u` has been left out. -/
theorem left_out (hs : u.Known scope) (hfree : u.subScope? scope name = none)
    (hc : t.subScope? (φ scope) name = some inner) {s : ScopeId} (hknown : u.Known s) :
    φ s ≠ inner := by
  rintro rfl
  obtain ⟨hparent, hname⟩ := h.whole.child hc
  rw [h.parent hknown] at hparent
  rw [h.name hknown] at hname
  obtain ⟨p, hp, heq⟩ := Option.map_eq_some_iff.mp hparent
  obtain ⟨-, n, hn⟩ := h.nested.below hp
  obtain rfl := h.injective (known_of_subScope? hn) hs heq
  cases hfree.symm.trans (h.nested.subScope?_of_parent? hp hname)

theorem count_eq : t.symbols.size = u.symbols.size := by
  apply count_eq_of_isSome
  intro id
  rw [h.symbol, Option.isSome_map]

theorem pads (ht : t.Pads t') : Pruned φ u t' where
  nested := h.nested
  whole := ht.nested
  root := h.root
  known hs := ht.known (h.known hs)
  injective := h.injective
  parent hs := (ht.parent (h.known hs)).trans (h.parent hs)
  name hs := (ht.name (h.known hs)).trans (h.name hs)
  declared n hs := (ht.local_eq _ _).trans (h.declared n hs)
  kept hl := h.kept ((ht.local_eq _ _).symm.trans hl)
  symbol i := (ht.symbol_eq i).trans (h.symbol i)

theorem adds {id' : SymbolId} (hu : u.Adds scope symbol id u')
    (ht : t.Adds (φ scope) symbol id' t') : id' = id ∧ Pruned φ u' t' := by
  obtain rfl : id' = id := by rw [ht.id_eq, hu.id_eq, h.count_eq]
  refine ⟨rfl, ?_⟩
  constructor
  case nested => exact hu.nested h.nested
  case whole => exact ht.nested h.whole
  case root => exact h.root
  case known =>
    intro s hs
    exact ht.known_iff.mpr (h.known (hu.known_iff.mp hs))
  case injective =>
    intro s s' hs hs'
    exact h.injective (hu.known_iff.mp hs) (hu.known_iff.mp hs')
  case parent =>
    intro s hs
    rw [ht.parent_eq, hu.parent_eq, h.parent (hu.known_iff.mp hs)]
  case name =>
    intro s hs
    rw [ht.name_eq, hu.name_eq, h.name (hu.known_iff.mp hs)]
  case declared =>
    intro s n hs
    have hknown := hu.known_iff.mp hs
    have hiff : φ s = φ scope ↔ s = scope := ⟨h.injective hknown hu.known, congrArg φ⟩
    simp only [ht.local_eq, hu.local_eq, hiff, h.declared n hknown]
  case kept =>
    intro s n i hl
    rw [ht.local_eq] at hl
    split_ifs at hl with hn
    · exact ⟨scope, hu.known_iff.mpr hu.known, hn.1.symm⟩
    · obtain ⟨s', hs', heq⟩ := h.kept hl
      exact ⟨s', hu.known_iff.mpr hs', heq⟩
  case symbol =>
    intro i
    rw [ht.symbol_eq, hu.symbol_eq]
    split_ifs
    · rfl
    · exact h.symbol i

omit h in
theorem keeps_of_adds (hu : u.Adds scope symbol id u') : Keeps φ u φ u' :=
  fun _ hs => ⟨hu.known_iff.mpr hs, rfl⟩

omit h in
theorem keeps_of_opens (hu : u.Opens scope name inner u') :
    Keeps φ u (Function.update φ inner outer) u' :=
  fun _ hs => ⟨hu.grow_known hs, Function.update_of_ne (hs.ne hu.fresh) _ _⟩

/-- A scope that is opened in `u` gets the number of the one that lies there in `t`. -/
theorem opens (hu : u.Opens scope name inner u') (hu' : u'.Nested)
    (hc : t.subScope? (φ scope) name = some outer) :
    Pruned (Function.update φ inner outer) u' t := by
  have hkeep : ∀ {s}, u.Known s → Function.update φ inner outer s = φ s := fun hs =>
    Function.update_of_ne (hs.ne hu.fresh) _ _
  have hsame : Function.update φ inner outer inner = outer := Function.update_self _ _ _
  have hout {s : ScopeId} (hs : u.Known s) : φ s ≠ outer := h.left_out hu.known hu.free hc hs
  obtain ⟨hparent, hname⟩ := h.whole.child hc
  constructor
  case nested => exact hu'
  case whole => exact h.whole
  case root => exact (hkeep h.nested.root).trans h.root
  case known =>
    intro s hs
    rcases hu.known_cases hs with rfl | hs
    · rw [hsame]
      exact h.whole.known_inner hc
    · rw [hkeep hs]
      exact h.known hs
  case injective =>
    intro s s' hs hs'
    rcases hu.known_cases hs with rfl | hs <;> rcases hu.known_cases hs' with rfl | hs'
    · exact fun _ => rfl
    · rw [hsame, hkeep hs']
      exact fun heq => absurd heq.symm (hout hs')
    · rw [hsame, hkeep hs]
      exact fun heq => absurd heq (hout hs)
    · rw [hkeep hs, hkeep hs']
      exact h.injective hs hs'
  case parent =>
    intro s hs
    rcases hu.known_cases hs with rfl | hs
    · rw [hsame, hparent, hu.parent_eq, if_pos rfl, Option.map_some, hkeep hu.known]
    · rw [hkeep hs, h.parent hs, hu.parent_eq, if_neg (hs.ne hu.fresh)]
      exact Option.map_congr fun p hp => (hkeep (h.nested.known_outer hp)).symm
  case name =>
    intro s hs
    rcases hu.known_cases hs with rfl | hs
    · rw [hsame, hname, hu.name_eq, if_pos rfl]
    · rw [hkeep hs, h.name hs, hu.name_eq, if_neg (hs.ne hu.fresh)]
  case declared =>
    intro s n hs
    rw [hu.local_eq]
    rcases hu.known_cases hs with rfl | hs
    · rw [hsame, local?_of_not_known hu.new]
      cases hl : t.local? outer n with
      | none => rfl
      | some i =>
          obtain ⟨s, hs, heq⟩ := h.kept hl
          exact absurd heq (hout hs)
    · rw [hkeep hs, h.declared n hs]
  case kept =>
    intro s n i hl
    obtain ⟨s', hs', heq⟩ := h.kept hl
    exact ⟨s', hu.grow_known hs', (hkeep hs').trans heq⟩
  case symbol =>
    intro i
    rw [hu.symbol_eq, h.symbol]
    refine Option.map_congr fun x hx => ?_
    unfold Symbol.moved
    rw [hkeep (known_of_local? (h.nested.listed hx))]

theorem exists_opens (hu : u.Opens scope name inner u') (hu' : u'.Nested)
    (hc : t.subScope? (φ scope) name = some outer) :
    ∃ φ', Keeps φ u φ' u' ∧ Pruned φ' u' t ∧ φ' inner = outer :=
  ⟨_, keeps_of_opens hu, h.opens hu hu' hc, Function.update_self _ _ _⟩

theorem setSignature {type? : Option TypeId} {params : List (String × Option TypeId)} :
    Pruned φ (u.setSignature id type? params) (t.setSignature id type? params) where
  nested := h.nested.setSignature
  whole := h.whole.setSignature
  root := h.root
  known := h.known
  injective := h.injective
  parent := h.parent
  name := h.name
  declared := h.declared
  kept := h.kept
  symbol i := by
    rw [symbol?_setSignature, symbol?_setSignature, h.symbol]
    split_ifs
    · rw [Option.map_map, Option.map_map]
      rfl
    · rfl

/-! ## Lookups -/

theorem isPreferred_eq (preference : Preference) (id : SymbolId) :
    t.isPreferred preference id = u.isPreferred preference id := by
  unfold isPreferred
  rw [h.symbol, Option.map_map]
  rfl

theorem lookup?_eq (name : String) (preference : Preference) (hs : u.Known scope) :
    t.lookup? name preference (φ scope) = u.lookup? name preference scope := by
  have hpreferred : t.isPreferred preference = u.isPreferred preference :=
    funext (h.isPreferred_eq preference)
  induction scope using h.nested.outwards with
  | step scope ih =>
      have houter : (t.parent? (φ scope)).bind (t.lookup? name preference) =
          (u.parent? scope).bind (u.lookup? name preference) := by
        rw [h.parent hs]
        cases hp : u.parent? scope with
        | none => rfl
        | some outer => exact ih outer hp (h.nested.known_outer hp)
      rw [h.whole.lookup?_eq, h.nested.lookup?_eq, h.declared name hs, houter, hpreferred]

end Pruned

end SymbolTable

end ScriptFront
