import ScriptFront.Proofs.SymbolTable.Layout

/-!
# Additions that are confined to names

What is declared in a scope under some names only, and in scopes that are opened on the
way, leaves everything else in the table as it was. So the names of two definitions
can be told apart long after both were declared.
-/
namespace ScriptFront

/-- What the use of a name learns of its symbol. -/
structure Symbol.Meaning where
  kind : SymbolKind
  place : Position
  type? : Option TypeId
  params : List (Option TypeId)
deriving DecidableEq, Repr

/-- The kind of the symbol, the place of its declaration, its type and the types of its
parameters. -/
def Symbol.meaning (s : Symbol) : Symbol.Meaning :=
  ⟨s.kind, s.declaration.position, s.type?, s.params.map Prod.snd⟩

namespace SymbolTable

variable {t u v : SymbolTable} {scope inner : ScopeId} {symbol : Symbol} {id : SymbolId}
  {name : String} {names names' : List String}

/-- What a name means that is declared directly in a scope. -/
def meaning? (t : SymbolTable) (scope : ScopeId) (name : String) : Option Symbol.Meaning :=
  (t.local? scope name).bind fun id => (t.symbol? id).map Symbol.meaning

theorem meaning?_of_local? (hl : t.local? scope name = some id) (hs : t.symbol? id = some symbol) :
    t.meaning? scope name = some symbol.meaning := by
  rw [meaning?, hl, Option.bind_some, hs, Option.map_some]

theorem Nested.isSome_meaning? (h : t.Nested) :
    (t.meaning? scope name).isSome = (t.local? scope name).isSome := by
  cases hl : t.local? scope name with
  | none =>
      rw [meaning?, hl]
      rfl
  | some id =>
      obtain ⟨symbol, hs, -⟩ := h.entry hl
      rw [meaning?_of_local? hl hs]
      rfl

/-- The table `u` is `t` with what has been declared in the scope under the names, and
inside of new scopes. -/
structure Confined (t : SymbolTable) (scope : ScopeId) (names : List String) (u : SymbolTable) :
    Prop where
  scopes : t.scopes.size ≤ u.scopes.size
  symbols : t.symbols.size ≤ u.symbols.size
  local_eq {s : ScopeId} {n : String} : t.Known s → (s = scope → n ∉ names) →
    u.local? s n = t.local? s n
  sub_eq {s : ScopeId} {n : String} : t.Known s → (s = scope → n ∉ names) →
    u.subScope? s n = t.subScope? s n
  parent_eq {s : ScopeId} : t.Known s → u.parent? s = t.parent? s
  symbol_eq {i : SymbolId} : i.index < t.symbols.size → u.symbol? i = t.symbol? i

namespace Confined

theorem refl (t : SymbolTable) (scope : ScopeId) (names : List String) :
    t.Confined scope names t :=
  ⟨Nat.le_refl _, Nat.le_refl _, fun _ _ => rfl, fun _ _ => rfl, fun _ => rfl, fun _ => rfl⟩

theorem known (h : t.Confined scope names u) {s : ScopeId} (hs : t.Known s) : u.Known s :=
  Nat.lt_of_lt_of_le hs h.scopes

theorem trans (h : t.Confined scope names u) (k : u.Confined scope names' v) :
    t.Confined scope (names ++ names') v where
  scopes := Nat.le_trans h.scopes k.scopes
  symbols := Nat.le_trans h.symbols k.symbols
  local_eq hs hn := by
    simp only [List.mem_append, not_or] at hn
    rw [k.local_eq (h.known hs) fun he => (hn he).2, h.local_eq hs fun he => (hn he).1]
  sub_eq hs hn := by
    simp only [List.mem_append, not_or] at hn
    rw [k.sub_eq (h.known hs) fun he => (hn he).2, h.sub_eq hs fun he => (hn he).1]
  parent_eq hs := (k.parent_eq (h.known hs)).trans (h.parent_eq hs)
  symbol_eq hi := (k.symbol_eq (Nat.lt_of_lt_of_le hi h.symbols)).trans (h.symbol_eq hi)

theorem adds (h : t.Confined scope names u) {s : ScopeId}
    (hs : s = scope ∧ symbol.name ∈ names ∨ ¬ t.Known s) (ha : u.Adds s symbol id v) :
    t.Confined scope names v where
  scopes := ha.size ▸ h.scopes
  symbols := by
    rw [ha.symbols_eq, Array.size_push]
    exact Nat.le_succ_of_le h.symbols
  local_eq {r n} hr hn := by
    rw [ha.local_eq, if_neg, h.local_eq hr hn]
    rintro ⟨rfl, rfl⟩
    rcases hs with ⟨rfl, hname⟩ | hnew
    · exact hn rfl hname
    · exact hnew hr
  sub_eq hr hn := (ha.sub_eq _ _).trans (h.sub_eq hr hn)
  parent_eq hr := (ha.parent_eq _).trans (h.parent_eq hr)
  symbol_eq {i} hi := by
    rw [ha.symbol_eq, if_neg, h.symbol_eq hi]
    rintro rfl
    have hfresh := ha.fresh
    have hle := h.symbols
    omega

theorem opens (h : t.Confined scope names u) {s : ScopeId}
    (hs : s = scope ∧ name ∈ names ∨ ¬ t.Known s) (ho : u.Opens s name inner v) :
    t.Confined scope names v where
  scopes := by
    rw [ho.size]
    exact Nat.le_succ_of_le h.scopes
  symbols := ho.symbols_eq ▸ h.symbols
  local_eq hr hn := (ho.local_eq _ _).trans (h.local_eq hr hn)
  sub_eq {r n} hr hn := by
    rw [ho.sub_eq, if_neg, h.sub_eq hr hn]
    rintro ⟨rfl, rfl⟩
    rcases hs with ⟨rfl, hname⟩ | hnew
    · exact hn rfl hname
    · exact hnew hr
  parent_eq hr := by
    rw [ho.parent_eq, if_neg ((h.known hr).ne ho.fresh), h.parent_eq hr]
  symbol_eq hi := (ho.symbol_eq _).trans (h.symbol_eq hi)

theorem setSignature (h : t.Confined scope names u) (hid : t.symbols.size ≤ id.index)
    (type? : Option TypeId) (params : List (String × Option TypeId)) :
    t.Confined scope names (u.setSignature id type? params) where
  scopes := h.scopes
  symbols := by
    unfold SymbolTable.setSignature
    rw [Array.size_modify]
    exact h.symbols
  local_eq := h.local_eq
  sub_eq := h.sub_eq
  parent_eq := h.parent_eq
  symbol_eq {i} hi := by
    rw [symbol?_setSignature, if_neg, h.symbol_eq hi]
    rintro rfl
    omega

/-- Whatever else is declared, a name goes on to mean what it means. -/
theorem meaning?_eq (h : t.Confined scope names u) (ht : t.Nested) {s : ScopeId} (hs : t.Known s)
    {n : String} (hn : s = scope → n ∉ names) : u.meaning? s n = t.meaning? s n := by
  unfold meaning?
  rw [h.local_eq hs hn]
  cases hl : t.local? s n with
  | none => rfl
  | some id =>
      obtain ⟨symbol, hsymbol, -⟩ := ht.entry hl
      rw [Option.bind_some, Option.bind_some, h.symbol_eq (symbol_lt_of_symbol? hsymbol)]

end Confined

end SymbolTable

end ScriptFront
