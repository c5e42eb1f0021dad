import ScriptFront.Proofs.Program.Parts
import ScriptFront.Proofs.SymbolTable.Walk

/-!
# The representation of the symbol table

Scopes and symbols name each other by numbers, and the same is said in several places:
which scope is around another is known to both of them, and so is in which scope a symbol
is declared. In every table that was built these places agree. A number that was handed
out keeps its meaning whatever is done to the table later, and an addition that is refused
does nothing.

So the scopes are a tree. Going outwards ends, and so does going inwards; no recursion of
the lookup, the path of a scope, or the walk over the symbols is cut off. The walk comes to
every symbol once.
-/
namespace ScriptFront.SymbolTable

variable {t u v : SymbolTable} {scope inner outer : ScopeId} {symbol : Symbol} {id : SymbolId}
  {name : String} {type? : Option TypeId} {params : List (String × Option TypeId)}

/-! ## What the scopes and symbols say of each other -/

/-- Every scope and every symbol stands in one place, which it names itself. -/
structure Linked (t : SymbolTable) : Prop where
  /-- The global scope is there, and lies in no scope. -/
  root : t.Known .global ∧ t.parent? .global = none ∧
    ∀ scope name, t.subScope? scope name ≠ some .global
  /-- Every other scope lies in a scope of a smaller number. It is found there, under its
  own name, and nowhere else. -/
  housed {scope : ScopeId} : t.Known scope → scope ≠ .global → ∃ outer name,
    t.parent? scope = some outer ∧ t.name? scope = some name ∧ outer.index < scope.index ∧
      ∀ s n, t.subScope? s n = some scope ↔ s = outer ∧ n = name
  /-- Every symbol is declared in its scope, under its own name, and nowhere else. -/
  declared {id : SymbolId} {symbol : Symbol} : t.symbol? id = some symbol →
    ∀ s n, t.local? s n = some id ↔ s = symbol.scope ∧ n = symbol.name
  /-- The scopes that are named are there. -/
  scopes_known {scope other : ScopeId} : (t.parent? scope = some other ∨
    (∃ name, t.subScope? scope name = some other) ∨
      ∃ id symbol, t.symbol? id = some symbol ∧ symbol.scope = other) → t.Known other
  /-- The symbols that are named are there. -/
  symbols_known {scope : ScopeId} {name : String} {id : SymbolId} :
    t.local? scope name = some id → ∃ symbol, t.symbol? id = some symbol

theorem Rooted.linked (h : t.Rooted) : t.Linked where
  root := ⟨h.root, h.global_orphan, fun _ _ hc => h.inner_ne_global hc rfl⟩
  housed {scope} hs hne := by
    obtain ⟨outer, hp⟩ := h.housed hs hne
    obtain ⟨hlt, name, hc⟩ := h.below hp
    refine ⟨outer, name, hp, (h.child hc).2, hlt, fun s n => ⟨fun hsub => ?_, ?_⟩⟩
    · obtain ⟨hp', hn'⟩ := h.child hsub
      exact ⟨Option.some.inj (hp'.symm.trans hp), Option.some.inj (hn'.symm.trans (h.child hc).2)⟩
    · rintro ⟨rfl, rfl⟩
      exact hc
  declared {id symbol} hs s n := by
    constructor
    · intro hl
      obtain ⟨x, hx, rfl, rfl⟩ := h.entry hl
      cases hs.symm.trans hx
      exact ⟨rfl, rfl⟩
    · rintro ⟨rfl, rfl⟩
      exact h.listed hs
  scopes_known := by
    rintro scope other (hp | ⟨name, hc⟩ | ⟨id, symbol, hs, rfl⟩)
    · exact h.known_outer hp
    · exact h.known_inner hc
    · exact known_of_local? (h.listed hs)
  symbols_known hl := by
    obtain ⟨symbol, hs, -⟩ := h.entry hl
    exact ⟨symbol, hs⟩

/-! ## What is done to a table -/

/-- A symbol or a scope is added to the table, or the signature of a symbol is changed. -/
inductive Change : SymbolTable → SymbolTable → Prop
  | symbol {t u : SymbolTable} {scope : ScopeId} {symbol : Symbol} {id : SymbolId} :
      t.addSymbol? scope symbol = some (id, u) → Change t u
  | scope {t u : SymbolTable} {outer inner : ScopeId} {name : String} :
      t.addSubScope? outer name = some (inner, u) → Change t u
  | signature {t : SymbolTable} {id : SymbolId} {type? : Option TypeId}
      {params : List (String × Option TypeId)} : Change t (t.setSignature id type? params)

/-- The table `u` is left of the table `t` after any number of changes. -/
def Later : SymbolTable → SymbolTable → Prop := Relation.ReflTransGen Change

theorem Change.extend (h : Change t u) : t.Extends u := by
  cases h with
  | symbol hadd => exact (adds_of_addSymbol? hadd).extend
  | scope hadd => exact (opens_of_addSubScope? hadd).extend
  | signature => exact extends_setSignature

/-- No change takes anything back. -/
theorem Later.extend (h : t.Later u) : t.Extends u := by
  induction h with
  | refl => exact .refl t
  | tail _ hchange ih => exact ih.trans hchange.extend

/-- The numbers that are handed out keep their meaning. -/
structure Lasting (t : SymbolTable) : Prop where
  /-- What the table answers is answered later, but for the signatures of symbols. -/
  later {u : SymbolTable} : t.Later u → t.Extends u
  /-- The number of a new symbol is a new one. From now on it is that symbol's. -/
  symbol {u v : SymbolTable} {scope : ScopeId} {symbol : Symbol} {id : SymbolId} :
    t.addSymbol? scope symbol = some (id, u) → u.Later v → t.symbol? id = none ∧
      ∃ type? params, v.symbol? id = some { symbol with scope, type?, params }
  /-- The number of a new scope is a new one. From now on it is that scope's. -/
  scope {u v : SymbolTable} {outer inner : ScopeId} {name : String} :
    t.addSubScope? outer name = some (inner, u) → u.Later v → ¬ t.Known inner ∧
      v.parent? inner = some outer ∧ v.name? inner = some name

theorem lasting (t : SymbolTable) : t.Lasting where
  later := Later.extend
  symbol hadd hlater := by
    have h := adds_of_addSymbol? hadd
    refine ⟨?_, hlater.extend.entry h.entry⟩
    rw [h.id_eq]
    exact Array.getElem?_eq_none (Nat.le_refl _)
  scope hadd hlater := by
    have h := opens_of_addSubScope? hadd
    have hname := (h.name_eq _).trans (if_pos rfl)
    have hknown := known_of_name? hname
    refine ⟨h.new, (hlater.extend.parent hknown).trans ?_, (hlater.extend.name hknown).trans hname⟩
    rw [h.parent_eq, if_pos rfl]

/-- An addition is refused where the name is taken, and then the table stays as it is. -/
structure Refusing (t : SymbolTable) : Prop where
  symbol {scope : ScopeId} (symbol : Symbol) : t.Known scope →
    (t.addSymbol? scope symbol = none ↔ (t.local? scope symbol.name).isSome)
  scope {outer : ScopeId} (name : String) : t.Known outer →
    (t.addSubScope? outer name = none ↔ (t.subScope? outer name).isSome)
  symbol_kept {scope : ScopeId} {symbol : Symbol} : t.addSymbol? scope symbol = none →
    (Declaring.add? fun t => t.addSymbol? scope symbol) t = ⟨(none, t), []⟩
  scope_kept {outer : ScopeId} {name : String} : t.addSubScope? outer name = none →
    (Declaring.add? fun t => t.addSubScope? outer name) t = ⟨(none, t), []⟩

theorem refusing (t : SymbolTable) : t.Refusing where
  symbol _ hs := addSymbol?_eq_none_iff.trans (forall_prop_of_true hs)
  scope _ hs := addSubScope?_eq_none_iff.trans (forall_prop_of_true hs)
  symbol_kept hnone := Declaring.add?_of_none hnone
  scope_kept hnone := Declaring.add?_of_none hnone

/-! ## The walks through a table -/

/-- The walks through a table end, and that over the symbols comes to each of them once. -/
structure Walkable (t : SymbolTable) : Prop where
  /-- There is no way outwards without an end, -/
  outwards : WellFounded fun outer scope => t.parent? scope = some outer
  /-- so that a lookup, which goes to the scope around whichever that is, finds an end, -/
  lookup (name : String) (preference : Preference) (scope : ScopeId) :
    t.lookup? name preference scope =
      match t.local? scope name with
      | none => (t.parent? scope).bind (t.lookup? name preference)
      | some found =>
        if t.isPreferred preference found then some found
        else (((t.parent? scope).bind (t.lookup? name preference)).filter
          (t.isPreferred preference)).or (some found)
  /-- and so does the path of a scope. -/
  path (scope : ScopeId) :
    t.path scope = ((t.parent? scope).map t.path).getD [] ++ (t.name? scope).toList
  /-- There is no way inwards without an end, -/
  inwards : WellFounded fun inner scope => ∃ name, t.subScope? scope name = some inner
  /-- so that the walk over the symbols, which goes into all scopes inside, ends. -/
  walk {scope : ScopeId} {s : Scope} : t.scope? scope = some s → t.symbolsWithin scope =
    s.symbols.values ++ s.children.values.flatMap t.symbolsWithin
  /-- It comes to every symbol, and to none again. -/
  once : (t.symbolsWithin .global).Nodup ∧
    ∀ id, id ∈ t.symbolsWithin .global ↔ ∃ symbol, t.symbol? id = some symbol
  /-- The listing has one line for each symbol. -/
  lines (types : TypeTable) :
    (t.listing types).Perm (t.symbols.toList.map (t.qualifiedSignature types))

theorem Rooted.wellFounded_outwards (h : t.Rooted) :
    WellFounded fun outer scope => t.parent? scope = some outer :=
  Subrelation.wf (fun hp => (h.below hp).1) (measure ScopeId.index).wf

theorem Rooted.wellFounded_inwards (h : t.Rooted) :
    WellFounded fun inner scope => ∃ name, t.subScope? scope name = some inner := by
  refine Subrelation.wf ?_ (measure fun scope : ScopeId => t.scopes.size - scope.index).wf
  rintro inner scope ⟨name, hc⟩
  have hknown : inner.index < t.scopes.size := h.known_inner hc
  have hlt := (h.below (h.child hc).1).1
  change t.scopes.size - inner.index < t.scopes.size - scope.index
  omega

theorem Rooted.walkable (h : t.Rooted) : t.Walkable where
  outwards := h.wellFounded_outwards
  lookup := h.lookup?_eq
  path := h.path_eq
  inwards := h.wellFounded_inwards
  walk hs := by rw [h.symbolsWithin_eq hs, List.flatMap_singleton']
  once := ⟨h.nodup_symbolsWithin, fun _ => h.mem_symbolsWithin_global_iff⟩
  lines := h.listing_perm

/-- In a table that was built the entries agree with each other, and go on to do so. The
walks through it end, and the listing has every symbol once. -/
theorem Built.represents (h : t.Built) : t.Linked ∧ t.Lasting ∧ t.Refusing ∧ t.Walkable :=
  ⟨h.rooted.linked, lasting t, refusing t, h.rooted.walkable⟩

/-- A variable in the scope of a function, whose type is filled in after its declaration. The
variable cannot be declared twice. -/
theorem represents_of_variable :
    let token : Token := ⟨.identifier, "x", ⟨1, 1⟩⟩
    let x : Symbol := ⟨"x", .localVariable, token, none, [], .global⟩
    let t₁ := (empty.addSubScope? .global "f").elim empty Prod.snd
    let t₂ := (t₁.addSymbol? ⟨1⟩ x).elim empty Prod.snd
    let t := t₂.setSignature ⟨0⟩ (some ⟨1⟩) []
    t.Built ∧ t.symbolsWithin .global = [⟨0⟩] ∧ t.addSymbol? ⟨1⟩ x = none ∧
      t.Linked ∧ t.Lasting ∧ t.Refusing ∧ t.Walkable := by
  intro token x t₁ t₂ t
  have h₁ : empty.addSubScope? .global "f" = some (⟨1⟩, t₁) := rfl
  have h₂ : t₁.addSymbol? ⟨1⟩ x = some (⟨0⟩, t₂) := rfl
  have hbuilt : t.Built := .signature (.symbol (.scope .empty h₁) h₂)
  have hwalk : t.symbolsWithin .global = [⟨0⟩] := by decide +kernel
  have hrefused : t.addSymbol? ⟨1⟩ x = none :=
    addSymbol?_eq_none_iff.mpr fun _ => by decide +kernel
  exact ⟨hbuilt, hwalk, hrefused, hbuilt.represents⟩

end ScriptFront.SymbolTable
