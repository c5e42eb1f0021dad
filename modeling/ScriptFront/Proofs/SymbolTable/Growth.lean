import ScriptFront.Program.Checking
import ScriptFront.Proofs.SymbolTable.Additions

/-!
# Growth of the symbol table

A symbol table only grows: what it once answered it answers ever after. Its
invariant says how scopes lie in each other and that nothing is missing that a
declaration should have left. The entry of the result of a function is declared
in the scope of the function only, so that every scope inside of it is led to it.
-/
namespace ScriptFront

namespace SymbolTable

variable {t u v : SymbolTable} {scope inner : ScopeId} {symbol : Symbol} {id : SymbolId}
  {name : String}

/-- The table `u` answers as `t` does what `t` answers. A scope of `t` is given no
other entry for a result. -/
structure Grows (t u : SymbolTable) : Prop where
  size : t.scopes.size ≤ u.scopes.size
  parent {scope : ScopeId} : t.Known scope → u.parent? scope = t.parent? scope
  declared {scope : ScopeId} {name : String} {id : SymbolId} :
    t.local? scope name = some id → u.local? scope name = some id
  result {scope : ScopeId} : t.Known scope →
    u.local? scope Symbol.returnValueName = t.local? scope Symbol.returnValueName
  opened {scope inner : ScopeId} {name : String} :
    t.subScope? scope name = some inner → u.subScope? scope name = some inner
  type {id : SymbolId} {symbol : Symbol} : t.symbol? id = some symbol →
    ∃ symbol', u.symbol? id = some symbol' ∧ symbol'.type? = symbol.type?

/-- Every declared name has a symbol of that name, with a type, and every parameter has a
type. Nothing is declared as a class. -/
structure Complete (t : SymbolTable) : Prop where
  entry {scope : ScopeId} {name : String} {id : SymbolId} :
    t.local? scope name = some id → ∃ symbol, t.symbol? id = some symbol
  named {scope : ScopeId} {name : String} {id : SymbolId} {symbol : Symbol} :
    t.local? scope name = some id → t.symbol? id = some symbol → symbol.name = name
  kind {id : SymbolId} {symbol : Symbol} :
    t.symbol? id = some symbol → symbol.kind ≠ .classType
  type {id : SymbolId} {symbol : Symbol} :
    t.symbol? id = some symbol → ∃ type, symbol.type? = some type
  params {id : SymbolId} {symbol : Symbol} : t.symbol? id = some symbol →
    ∃ types : List TypeId, symbol.params.map Prod.snd = types.map some

/-- The invariant of the first analysis, as long as it has nothing to report. -/
structure Valid (t : SymbolTable) : Prop extends Complete t where
  root : t.Known .global
  child {scope inner : ScopeId} {name : String} : t.subScope? scope name = some inner →
    t.Known inner ∧ t.parent? inner = some scope ∧ scope.index < inner.index
  block {scope inner : ScopeId} {name : String} : t.subScope? scope name = some inner →
    scope ≠ .global → t.local? inner Symbol.returnValueName = none
  function {inner : ScopeId} {name : String} : t.subScope? .global name = some inner →
    ∃ id, t.local? .global name = some id

theorem Grows.known (h : t.Grows u) (hs : t.Known scope) : u.Known scope :=
  Nat.lt_of_lt_of_le hs h.size

theorem Grows.refl (t : SymbolTable) : t.Grows t :=
  ⟨Nat.le_refl _, fun _ => rfl, id, fun _ => rfl, id, fun h => ⟨_, h, rfl⟩⟩

theorem Grows.trans (h : t.Grows u) (k : u.Grows v) : t.Grows v where
  size := Nat.le_trans h.size k.size
  parent hs := (k.parent (h.known hs)).trans (h.parent hs)
  declared := k.declared ∘ h.declared
  result hs := (k.result (h.known hs)).trans (h.result hs)
  opened := k.opened ∘ h.opened
  type hs := by
    obtain ⟨x, hx, hxs⟩ := h.type hs
    obtain ⟨y, hy, hyx⟩ := k.type hx
    exact ⟨y, hy, hyx.trans hxs⟩

theorem valid_empty : empty.Valid where
  entry := by simp
  named := by simp
  kind := by simp
  type := by simp
  params := by simp
  root := Nat.zero_lt_one
  child := by simp
  block := by simp
  function := by simp

/-! ## Additions -/

section
variable (h : t.Grows u)
include h

/-- A table that has grown goes on to grow with another symbol. A result can be
declared in a scope that is new since. -/
theorem Grows.adds (ha : u.Adds scope symbol id v)
    (hname : symbol.name = Symbol.returnValueName → ¬ t.Known scope) : t.Grows v where
  size := ha.size ▸ h.size
  parent hs := (ha.parent_eq _).trans (h.parent hs)
  declared {s n i} hs := by
    have hu := h.declared hs
    rw [ha.local_eq, if_neg]
    · exact hu
    · rintro ⟨rfl, rfl⟩
      rw [ha.free] at hu
      simp at hu
  result {s} hs := by
    rw [ha.local_eq, if_neg]
    · exact h.result hs
    · rintro ⟨rfl, hn⟩
      exact hname hn.symm hs
  opened hs := (ha.sub_eq _ _).trans (h.opened hs)
  type {i x} hs := by
    obtain ⟨y, hy, hyx⟩ := h.type hs
    exact ⟨y, ha.symbol?_of hy, hyx⟩

theorem Grows.opens (ho : u.Opens scope name inner v) : t.Grows v where
  size := by
    have hsize := ho.size
    have hle := h.size
    omega
  parent hs := by
    rw [ho.parent_eq, if_neg ((h.known hs).ne ho.fresh)]
    exact h.parent hs
  declared hs := (ho.local_eq _ _).trans (h.declared hs)
  result hs := (ho.local_eq _ _).trans (h.result hs)
  opened {s c n} hs := by
    have hu := h.opened hs
    rw [ho.sub_eq, if_neg]
    · exact hu
    · rintro ⟨rfl, rfl⟩
      rw [ho.free] at hu
      simp at hu
  type hs := by
    obtain ⟨y, hy, hyx⟩ := h.type hs
    exact ⟨y, (ho.symbol_eq _).trans hy, hyx⟩

theorem Grows.signature {type? : Option TypeId} (hs : u.symbol? id = some symbol)
    (htype : symbol.type? = type?) (params : List (String × Option TypeId)) :
    t.Grows (u.setSignature id type? params) where
  size := h.size
  parent := h.parent
  declared := h.declared
  result := h.result
  opened := h.opened
  type {i x} hx := by
    obtain ⟨y, hy, hyx⟩ := h.type hx
    rw [symbol?_setSignature]
    by_cases hi : i = id
    · subst hi
      obtain rfl : y = symbol := Option.some.inj (hy.symm.trans hs)
      rw [if_pos rfl, hy]
      exact ⟨_, rfl, htype ▸ hyx⟩
    · rw [if_neg hi]
      exact ⟨y, hy, hyx⟩

end

section
variable (h : t.Valid)
include h

/-- The entry of a result can be declared in a scope that lies in the global scope. -/
theorem Valid.adds (ha : t.Adds scope symbol id u) (htype : ∃ type, symbol.type? = some type)
    (hparams : symbol.params = []) (hkind : symbol.kind ≠ .classType)
    (hname : symbol.name = Symbol.returnValueName → t.parent? scope = some .global) :
    u.Valid where
  entry {s n i} hi := by
    rw [ha.local_eq] at hi
    split_ifs at hi
    · exact ⟨_, Option.some.inj hi ▸ ha.entry⟩
    · obtain ⟨x, hx⟩ := h.entry hi
      exact ⟨x, ha.symbol?_of hx⟩
  named {s n i x} hi hx := by
    rw [ha.local_eq] at hi
    split_ifs at hi with hn
    · rw [← Option.some.inj hi, ha.entry] at hx
      rw [hn.2, ← Option.some.inj hx]
    · obtain ⟨y, hy⟩ := h.entry hi
      obtain rfl : y = x := Option.some.inj ((ha.symbol?_of hy).symm.trans hx)
      exact h.named hi hy
  kind {i x} hx := by
    rcases ha.symbol?_cases hx with ⟨-, rfl⟩ | hx
    · exact hkind
    · exact h.kind hx
  type {i x} hx := by
    rcases ha.symbol?_cases hx with ⟨-, rfl⟩ | hx
    · exact htype
    · exact h.type hx
  params {i x} hx := by
    rcases ha.symbol?_cases hx with ⟨-, rfl⟩ | hx
    · exact ⟨[], by simp [hparams]⟩
    · exact h.params hx
  root := Nat.lt_of_lt_of_eq h.root ha.size.symm
  child {s c n} hc := by
    rw [ha.sub_eq] at hc
    obtain ⟨hknown, hparent, hlt⟩ := h.child hc
    exact ⟨Nat.lt_of_lt_of_eq hknown ha.size.symm, (ha.parent_eq _).trans hparent, hlt⟩
  block {s c n} hc hs := by
    rw [ha.sub_eq] at hc
    rw [ha.local_eq, if_neg]
    · exact h.block hc hs
    · rintro ⟨rfl, hn⟩
      have hparent := (h.child hc).2.1.symm.trans (hname hn.symm)
      exact hs (Option.some.inj hparent)
  function {c n} hc := by
    rw [ha.sub_eq] at hc
    obtain ⟨i, hi⟩ := h.function hc
    rw [ha.local_eq]
    split_ifs
    · exact ⟨_, rfl⟩
    · exact ⟨i, hi⟩

/-- A symbol that is no entry of a result can be declared everywhere. -/
theorem Valid.adds_named (ha : t.Adds scope symbol id u) (htype : ∃ type, symbol.type? = some type)
    (hparams : symbol.params = []) (hkind : symbol.kind ≠ .classType)
    (hname : symbol.name ≠ Symbol.returnValueName) :
    t.Grows u ∧ u.Valid := by
  constructor
  · exact (Grows.refl t).adds ha fun hs => absurd hs hname
  · exact h.adds ha htype hparams hkind fun hs => absurd hs hname

theorem Valid.child_ne_global (hc : t.subScope? scope name = some inner) : inner ≠ .global := by
  rintro rfl
  exact Nat.not_lt_zero _ (h.child hc).2.2

/-- A scope in the global scope has the name of a symbol there. -/
theorem Valid.opens (ho : t.Opens scope name inner u)
    (hname : scope = .global → ∃ id, t.local? .global name = some id) : u.Valid where
  entry {s n i} hi := by
    rw [ho.local_eq] at hi
    rw [ho.symbol_eq]
    exact h.entry hi
  named {s n i x} hi hx := by
    rw [ho.local_eq] at hi
    rw [ho.symbol_eq] at hx
    exact h.named hi hx
  kind {i x} hx := by
    rw [ho.symbol_eq] at hx
    exact h.kind hx
  type {i x} hx := by
    rw [ho.symbol_eq] at hx
    exact h.type hx
  params {i x} hx := by
    rw [ho.symbol_eq] at hx
    exact h.params hx
  root := ho.grow_known h.root
  child {s c n} hc := by
    rcases ho.subScope?_cases hc with ⟨rfl, -, rfl⟩ | hc
    · refine ⟨?_, by rw [ho.parent_eq, if_pos rfl], ho.fresh ▸ ho.known⟩
      unfold Known
      rw [ho.size, ho.fresh]
      exact Nat.lt_succ_self _
    · obtain ⟨hc, hparent, hlt⟩ := h.child hc
      refine ⟨ho.grow_known hc, ?_, hlt⟩
      rw [ho.parent_eq, if_neg (hc.ne ho.fresh)]
      exact hparent
  block {s c n} hc hs := by
    rw [ho.local_eq]
    rcases ho.subScope?_cases hc with ⟨-, -, rfl⟩ | hc
    · apply local?_of_not_known
      unfold Known
      rw [ho.fresh]
      exact Nat.lt_irrefl _
    · exact h.block hc hs
  function {c n} hc := by
    rw [ho.local_eq]
    rcases ho.subScope?_cases hc with ⟨hs, rfl, -⟩ | hc
    · exact hname hs.symm
    · exact h.function hc

theorem Valid.signature {type? : Option TypeId} {params : List (String × Option TypeId)}
    (htype : ∃ type, type? = some type)
    (hparams : ∃ types : List TypeId, params.map Prod.snd = types.map some) :
    (t.setSignature id type? params).Valid where
  entry {s n i} hi := by
    obtain ⟨x, hx⟩ := h.entry hi
    rw [symbol?_setSignature, hx]
    split_ifs
    · exact ⟨_, rfl⟩
    · exact ⟨x, rfl⟩
  named {s n i x} hi hx := by
    obtain ⟨y, hy, hyx⟩ := symbol?_setSignature_cases hx
    have hname := h.named hi hy
    rcases hyx with rfl | rfl <;> exact hname
  kind {i x} hx := by
    obtain ⟨y, hy, hyx⟩ := symbol?_setSignature_cases hx
    have hkind := h.kind hy
    rcases hyx with rfl | rfl <;> exact hkind
  type {i x} hx := by
    obtain ⟨y, hy, rfl | rfl⟩ := symbol?_setSignature_cases hx
    · exact htype
    · exact h.type hy
  params {i x} hx := by
    obtain ⟨y, hy, rfl | rfl⟩ := symbol?_setSignature_cases hx
    · exact hparams
    · exact h.params hy
  root := h.root
  child := h.child
  block := h.block
  function := h.function

end

/-! ## Results -/

/-- A scope belongs to a function whose result is of the type: the entry for the
result is in the scope, or the scope lies in one that belongs to the function. -/
inductive Returns (t : SymbolTable) (result : TypeId) : ScopeId → Prop
  | own {scope : ScopeId} {id : SymbolId} {symbol : Symbol} :
      t.local? scope Symbol.returnValueName = some id → t.symbol? id = some symbol →
      symbol.type? = some result → Returns t result scope
  | inside {scope inner : ScopeId} :
      t.Known inner → t.local? inner Symbol.returnValueName = none →
      t.parent? inner = some scope → scope.index < inner.index → Returns t result scope →
      Returns t result inner

variable {result : TypeId}

theorem Returns.known (h : t.Returns result scope) : t.Known scope := by
  cases h with
  | own hlocal => exact known_of_local? hlocal
  | inside hknown => exact hknown

theorem Grows.returns (hu : t.Grows u) (h : t.Returns result scope) : u.Returns result scope := by
  induction h with
  | own hlocal hsymbol htype =>
      obtain ⟨symbol, hsymbol', heq⟩ := hu.type hsymbol
      exact .own (hu.declared hlocal) hsymbol' (heq.trans htype)
  | inside hknown hlocal hparent hlt _ ih =>
      apply Returns.inside (hu.known hknown) _ _ hlt ih
      · exact (hu.result hknown).trans hlocal
      · exact (hu.parent hknown).trans hparent

theorem Valid.returns_inner (h : t.Valid) (hs : t.Returns result scope) (hroot : scope ≠ .global)
    (hsub : t.subScope? scope name = some inner) : t.Returns result inner := by
  obtain ⟨hknown, hparent, hlt⟩ := h.child hsub
  exact .inside hknown (h.block hsub hroot) hparent hlt hs

/-- The result of a function is found from every scope inside of it. -/
theorem Returns.returnType?_eq (h : t.Returns result scope) :
    Checking.returnType? t scope = some result := by
  suffices ∃ id symbol, t.lookup? Symbol.returnValueName .any scope = some id ∧
      t.symbol? id = some symbol ∧ symbol.type? = some result by
    obtain ⟨id, symbol, hlookup, hsymbol, htype⟩ := this
    simp [Checking.returnType?, hlookup, hsymbol, htype]
  induction h with
  | own hlocal hsymbol htype =>
      exact ⟨_, _, lookup?_any_of_local? hlocal ⟨_, hsymbol⟩, hsymbol, htype⟩
  | inside _ hlocal hparent hlt _ ih =>
      rwa [lookup?_of_parent? hlocal hparent hlt]

end SymbolTable

end ScriptFront
