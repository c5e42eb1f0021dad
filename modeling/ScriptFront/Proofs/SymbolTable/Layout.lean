import ScriptFront.Proofs.SymbolTable.Nesting

/-!
# The layout of a symbol table

A table is laid out in the order in which scopes were opened and symbols were declared.
So what an analysis has added is told by two lists: the names of new scopes, each with
the scope around it, and the new symbols, each with what it stands for.
-/
namespace ScriptFront

/-- What a symbol stands for: a node that carries its number, or the result of a
function, for which there is no node. -/
inductive Origin where
  | node (symbol? : Option SymbolId)
  | result
deriving DecidableEq, Repr

/-- If the symbol stands for a node, that carries the number. -/
def Origin.Carries (id : SymbolId) : Origin → Prop
  | node symbol? => symbol? = some id
  | result => True

/-- A symbol and what it stands for. -/
structure Entry where
  origin : Origin
  symbol : Symbol
deriving DecidableEq, Repr

namespace SymbolTable

variable {t u v : SymbolTable} {scope inner : ScopeId} {symbol : Symbol} {id : SymbolId}
  {name : String} {opened opened' : List (String × ScopeId)} {entries entries' : List Entry}

/-- The names of all scopes in order, each with the scope around it. -/
def layout (t : SymbolTable) : List (String × Option ScopeId) :=
  t.scopes.toList.map fun s => (s.name, s.parent?)

/-- The table `u` is `t` with further scopes and symbols, where nodes carry the numbers of
their symbols. -/
structure Records (t u : SymbolTable) (opened : List (String × ScopeId))
    (entries : List Entry) : Prop where
  layout : u.layout = t.layout ++ opened.map fun o => (o.1, some o.2)
  symbols : u.symbols.toList = t.symbols.toList ++ entries.map Entry.symbol
  carried (i : Nat) (e : Entry) : entries[i]? = some e → e.origin.Carries ⟨t.symbols.size + i⟩

@[simp] theorem length_layout (t : SymbolTable) : t.layout.length = t.scopes.size := by
  rw [layout, List.length_map, Array.length_toList]

theorem getElem?_layout (t : SymbolTable) (scope : ScopeId) :
    t.layout[scope.index]? = (t.name? scope).map fun name => (name, t.parent? scope) := by
  unfold layout name? parent? scope?
  rw [List.getElem?_map, Array.getElem?_toList]
  cases t.scopes[scope.index]? with
  | none => rfl
  | some s => rfl

/-- Tables that answer the same are laid out the same. -/
theorem layout_ext (hname : ∀ s, u.name? s = t.name? s) (hparent : ∀ s, u.parent? s = t.parent? s) :
    u.layout = t.layout := by
  apply List.ext_getElem?
  intro i
  have hu := getElem?_layout u ⟨i⟩
  have ht := getElem?_layout t ⟨i⟩
  rw [hname, hparent] at hu
  exact hu.trans ht.symm

theorem symbols_ext (hsymbol : ∀ i, u.symbol? i = t.symbol? i) : u.symbols = t.symbols := by
  apply Array.ext_getElem?
  intro i
  exact hsymbol ⟨i⟩

theorem Adds.layout_eq (h : t.Adds scope symbol id u) : u.layout = t.layout :=
  layout_ext h.name_eq h.parent_eq

theorem Adds.symbols_eq (h : t.Adds scope symbol id u) :
    u.symbols = t.symbols.push { symbol with scope } := by
  apply Array.ext_getElem?
  intro i
  have heq := h.symbol_eq ⟨i⟩
  obtain ⟨k⟩ := id
  obtain rfl : k = t.symbols.size := h.fresh
  rw [Array.getElem?_push]
  simpa only [symbol?, SymbolId.mk.injEq] using heq

theorem Opens.symbols_eq (h : t.Opens scope name inner u) : u.symbols = t.symbols :=
  symbols_ext h.symbol_eq

theorem Opens.layout_eq (h : t.Opens scope name inner u) :
    u.layout = t.layout ++ [(name, some scope)] := by
  apply List.ext_getElem?
  intro i
  have hu := getElem?_layout u ⟨i⟩
  have ht := getElem?_layout t ⟨i⟩
  rw [h.name_eq, h.parent_eq] at hu
  obtain ⟨k⟩ := inner
  obtain rfl : k = t.scopes.size := h.fresh
  rw [hu, List.getElem?_append, length_layout]
  by_cases hi : i = t.scopes.size
  · simp [hi]
  · simp only [ScopeId.mk.injEq, hi, if_false]
    rw [← ht]
    by_cases hlt : i < t.scopes.size
    · rw [if_pos hlt]
    · have hlen : t.layout.length ≤ i := by
        rw [length_layout]
        exact Nat.not_lt.mp hlt
      have hrest : [(name, some scope)].length ≤ i - t.scopes.size := by
        rw [List.length_singleton]
        omega
      rw [if_neg hlt, List.getElem?_eq_none hlen, List.getElem?_eq_none hrest]

namespace Records

theorem refl (t : SymbolTable) : t.Records t [] [] := by
  constructor
  · simp
  · simp
  · simp

theorem scopes_size (h : t.Records u opened entries) :
    u.scopes.size = t.scopes.size + opened.length := by
  rw [← length_layout u, h.layout, List.length_append, length_layout, List.length_map]

theorem symbols_size (h : t.Records u opened entries) :
    u.symbols.size = t.symbols.size + entries.length := by
  rw [← Array.length_toList, h.symbols, List.length_append, Array.length_toList, List.length_map]

theorem trans (h : t.Records u opened entries) (k : u.Records v opened' entries') :
    t.Records v (opened ++ opened') (entries ++ entries') where
  layout := by rw [k.layout, h.layout, List.map_append, List.append_assoc]
  symbols := by rw [k.symbols, h.symbols, List.map_append, List.append_assoc]
  carried i e he := by
    rw [List.getElem?_append] at he
    split_ifs at he with hi
    · exact h.carried i e he
    · have hcarried := k.carried _ e he
      have hindex : u.symbols.size + (i - entries.length) = t.symbols.size + i := by
        rw [h.symbols_size]
        omega
      rwa [hindex] at hcarried

theorem of_adds (h : t.Adds scope symbol id u) (origin : Origin) (ho : origin.Carries id) :
    t.Records u [] [⟨origin, { symbol with scope }⟩] where
  layout := by rw [h.layout_eq, List.map_nil, List.append_nil]
  symbols := by
    rw [h.symbols_eq, Array.toList_push]
    rfl
  carried i e he := by
    obtain ⟨hi, rfl⟩ := List.getElem?_eq_some_iff.mp he
    obtain rfl : i = 0 := Nat.lt_one_iff.mp hi
    exact h.id_eq ▸ ho

theorem of_opens (h : t.Opens scope name inner u) : t.Records u [(name, scope)] [] where
  layout := h.layout_eq
  symbols := by rw [h.symbols_eq, List.map_nil, List.append_nil]
  carried := by simp

theorem setSignature {origin : Origin} (h : t.Records u opened (⟨origin, symbol⟩ :: entries))
    (type? : Option TypeId) (params : List (String × Option TypeId))
    (hid : id.index = t.symbols.size) :
    t.Records (u.setSignature id type? params) opened
      (⟨origin, { symbol with type?, params }⟩ :: entries) where
  layout := h.layout
  symbols := by
    unfold SymbolTable.setSignature
    rw [Array.toList_modify, h.symbols, hid, ← Array.length_toList]
    exact List.modifyTailIdx_add _ 0 _ _
  carried i e he := by
    cases i with
    | zero =>
        obtain rfl := Option.some.inj he
        exact h.carried 0 ⟨origin, symbol⟩ rfl
    | succ i => exact h.carried (i + 1) e he

end Records

end SymbolTable

end ScriptFront
