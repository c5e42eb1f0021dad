import ScriptFront.Proofs.SymbolTable.Nesting

/-!
# Nearest declarations

A name is looked up along the scopes around the place where it is used. What is found is
declared in the nearest of these scopes that declares the name as something of a preferred
kind. If there is none, it is declared in the nearest scope that declares the name at all.
So a value that is a variable is the nearest variable, and functions are passed over.
-/
namespace ScriptFront.SymbolTable

variable {t : SymbolTable} {scope inner : ScopeId} {scopes : List ScopeId} {symbol : Symbol}
  {id : SymbolId} {name : String} {accepts : SymbolKind → Bool} {preference : Preference}

/-- The scopes from one of them to the global scope, each inside of the next. -/
inductive Outwards (t : SymbolTable) : List ScopeId → Prop
  | root : Outwards t [.global]
  | inside {inner scope : ScopeId} {outer : List ScopeId} :
      t.parent? inner = some scope → Outwards t (scope :: outer) →
      Outwards t (inner :: scope :: outer)

/-- From every scope there is a way to the global scope. -/
theorem Rooted.exists_outwards (h : t.Rooted) (hs : t.Known scope) :
    ∃ outer, t.Outwards (scope :: outer) := by
  induction scope using h.outwards with
  | step scope ih =>
      by_cases hroot : scope = .global
      · exact ⟨[], hroot ▸ .root⟩
      · obtain ⟨p, hp⟩ := h.housed hs hroot
        obtain ⟨outer, houter⟩ := ih p hp (h.known_outer hp)
        exact ⟨p :: outer, .inside hp houter⟩

/-! ## The first of some scopes -/

def isOfKind (t : SymbolTable) (accepts : SymbolKind → Bool) (id : SymbolId) : Bool :=
  (t.symbol? id).any fun symbol => accepts symbol.kind

/-- The symbol that is declared under a name in the first of the scopes that declares it as
something of an accepted kind. -/
def nearest? (t : SymbolTable) (accepts : SymbolKind → Bool) (name : String)
    (scopes : List ScopeId) : Option SymbolId :=
  scopes.findSome? fun scope => (t.local? scope name).filter (t.isOfKind accepts)

theorem isPreferred_eq_isOfKind (preference : Preference) (id : SymbolId) :
    t.isPreferred preference id = t.isOfKind preference.accepts id := by
  unfold isPreferred isOfKind
  cases t.symbol? id <;> rfl

theorem isOfKind_of_symbol? (hs : t.symbol? id = some symbol) :
    t.isOfKind accepts id = accepts symbol.kind := by
  rw [isOfKind, hs, Option.any_some]

theorem nearest?_of_none (hl : t.local? scope name = none) :
    t.nearest? accepts name (scope :: scopes) = t.nearest? accepts name scopes := by
  rw [nearest?, List.findSome?_cons, hl]
  rfl

theorem nearest?_of_isOfKind (hl : t.local? scope name = some id) (hk : t.isOfKind accepts id) :
    t.nearest? accepts name (scope :: scopes) = some id := by
  rw [nearest?, List.findSome?_cons, hl, Option.filter_some, if_pos hk]

theorem nearest?_of_not_isOfKind (hl : t.local? scope name = some id)
    (hk : ¬ t.isOfKind accepts id) :
    t.nearest? accepts name (scope :: scopes) = t.nearest? accepts name scopes := by
  rw [nearest?, List.findSome?_cons, hl, Option.filter_some, if_neg hk]
  rfl

theorem nearest?_eq_none_iff : t.nearest? accepts name scopes = none ↔
    ∀ scope ∈ scopes, ∀ id, t.local? scope name = some id → ¬ t.isOfKind accepts id := by
  unfold nearest?
  simp only [List.findSome?_eq_none_iff, Option.filter_eq_none_iff]

theorem nearest?_eq_some_iff : t.nearest? accepts name scopes = some id ↔
    ∃ between scope outer, scopes = between ++ scope :: outer ∧
      (t.local? scope name = some id ∧ t.isOfKind accepts id) ∧
      ∀ s ∈ between, ∀ other, t.local? s name = some other → ¬ t.isOfKind accepts other := by
  unfold nearest?
  simp only [List.findSome?_eq_some_iff, Option.filter_eq_some_iff, Option.filter_eq_none_iff]

theorem isOfKind_of_nearest? (h : t.nearest? accepts name scopes = some id) :
    t.isOfKind accepts id := by
  obtain ⟨_, _, _, -, ⟨-, hk⟩, -⟩ := nearest?_eq_some_iff.mp h
  exact hk

/-- If nothing is of an accepted kind, the nearest declaration is not. -/
theorem filter_nearest?_eq_none {others : SymbolKind → Bool}
    (h : t.nearest? accepts name scopes = none) :
    (t.nearest? others name scopes).filter (t.isOfKind accepts) = none := by
  rw [Option.filter_eq_none_iff]
  intro id hid
  obtain ⟨between, scope, outer, rfl, ⟨hl, -⟩, -⟩ := nearest?_eq_some_iff.mp hid
  exact nearest?_eq_none_iff.mp h scope (by simp) id hl

/-! ## Lookups -/

/-- The kinds of all symbols. -/
def anyKind (_ : SymbolKind) : Bool := true

/-- Every declaration counts, whatever its kind. -/
theorem Rooted.isOfKind_anyKind (h : t.Rooted) (hl : t.local? scope name = some id) :
    t.isOfKind anyKind id := by
  obtain ⟨symbol, hs, -⟩ := h.entry hl
  exact isOfKind_of_symbol? hs

theorem Rooted.nearest?_anyKind_eq_none_iff (h : t.Rooted) :
    t.nearest? anyKind name scopes = none ↔ ∀ scope ∈ scopes, t.local? scope name = none := by
  rw [nearest?_eq_none_iff]
  refine forall₂_congr fun scope _ => ?_
  rw [Option.eq_none_iff_forall_ne_some]
  refine forall_congr' fun id => ⟨fun hn hl => ?_, fun hn hl => absurd hl hn⟩
  exact hn hl (h.isOfKind_anyKind hl)

/-- What is found around a scope takes the place of a symbol of another kind only if it is
of a preferred kind. -/
theorem filter_or_nearest? (accepts : SymbolKind → Bool) :
    ((t.nearest? accepts name scopes).or (t.nearest? anyKind name scopes)).filter
      (t.isOfKind accepts) = t.nearest? accepts name scopes := by
  cases hn : t.nearest? accepts name scopes with
  | none => exact filter_nearest?_eq_none hn
  | some id => rw [Option.some_or, Option.filter_some, if_pos (isOfKind_of_nearest? hn)]

/-- A lookup finds the nearest declaration of a preferred kind, or else the nearest one. -/
theorem Rooted.lookup?_eq_nearest? (h : t.Rooted) (hscopes : t.Outwards (scope :: scopes)) :
    t.lookup? name preference scope =
      (t.nearest? preference.accepts name (scope :: scopes)).or
        (t.nearest? anyKind name (scope :: scopes)) := by
  have hstep : ∀ {scope scopes}, (t.parent? scope).bind (t.lookup? name preference) =
        (t.nearest? preference.accepts name scopes).or (t.nearest? anyKind name scopes) →
      t.lookup? name preference scope =
        (t.nearest? preference.accepts name (scope :: scopes)).or
          (t.nearest? anyKind name (scope :: scopes)) := by
    intro scope scopes houter
    rw [h.lookup?_eq, houter]
    cases hl : t.local? scope name with
    | none => rw [nearest?_of_none hl, nearest?_of_none hl]
    | some found =>
        have hany := h.isOfKind_anyKind hl
        have hkind : t.isPreferred preference = t.isOfKind preference.accepts :=
          funext (isPreferred_eq_isOfKind preference)
        dsimp only
        rw [hkind]
        split_ifs with hk
        · rw [nearest?_of_isOfKind hl hk, Option.some_or]
        · rw [nearest?_of_not_isOfKind hl hk, nearest?_of_isOfKind hl hany]
          exact congrArg (Option.or · (some found)) (filter_or_nearest? preference.accepts)
  generalize hchain : scope :: scopes = chain at hscopes
  induction hscopes generalizing scope scopes with
  | root =>
      obtain ⟨rfl, rfl⟩ := List.cons.inj hchain
      apply hstep
      rw [h.global_orphan]
      rfl
  | @inside inner outside outer hparent _ ih =>
      obtain ⟨rfl, rfl⟩ := List.cons.inj hchain
      apply hstep
      rw [hparent, Option.bind_some]
      exact ih rfl

/-- How a name is looked up from the first of some scopes, each inside of the next. -/
structure Resolves (t : SymbolTable) (name : String) (preference : Preference)
    (scopes : List ScopeId) (found? : Option SymbolId) : Prop where
  /-- A preferred kind counts first, nearness second. -/
  found : found? = (t.nearest? preference.accepts name scopes).or (t.nearest? anyKind name scopes)
  /-- What is found is declared in one of the scopes under that name. -/
  declared {id : SymbolId} : found? = some id → ∃ symbol, t.symbol? id = some symbol ∧
    symbol.name = name ∧ symbol.scope ∈ scopes
  /-- Nothing is found only if none of the scopes declares the name. -/
  missing : found? = none ↔ ∀ scope ∈ scopes, t.local? scope name = none

/-- In a table that was built, a name is looked up on the way from the scope to the global
scope. -/
theorem Built.lookup?_resolves (h : t.Built) (hs : t.Known scope) (name : String)
    (preference : Preference) : ∃ outer, t.Outwards (scope :: outer) ∧
      t.Resolves name preference (scope :: outer) (t.lookup? name preference scope) := by
  have hrooted := h.rooted
  obtain ⟨outer, houter⟩ := hrooted.exists_outwards hs
  have hfound : t.lookup? name preference scope = _ := hrooted.lookup?_eq_nearest? houter
  refine ⟨outer, houter, hfound, fun {id} hid => ?_, ?_⟩
  · have hnearest : ∃ accepts, t.nearest? accepts name (scope :: outer) = some id := by
      rw [hfound, Option.or_eq_some_iff] at hid
      exact hid.elim (fun h => ⟨_, h⟩) fun h => ⟨_, h.2⟩
    obtain ⟨accepts, hnearest⟩ := hnearest
    obtain ⟨_, place, _, hscopes, ⟨hl, -⟩, -⟩ := nearest?_eq_some_iff.mp hnearest
    obtain ⟨symbol, hsymbol, hname, hplace⟩ := hrooted.entry hl
    refine ⟨symbol, hsymbol, hname, ?_⟩
    rw [hscopes, hplace]
    exact List.mem_append_right _ List.mem_cons_self
  · rw [hfound, Option.or_eq_none_iff, hrooted.nearest?_anyKind_eq_none_iff]
    refine and_iff_right_of_imp fun hnone => nearest?_eq_none_iff.mpr fun s hs id hl => ?_
    rw [hnone s hs] at hl
    cases hl

/-- A function in an inner scope hides a variable further out from calls only. -/
theorem lookup?_resolves_of_hidden :
    let token : Token := ⟨.identifier, "x", ⟨1, 1⟩⟩
    let t₁ := (empty.addSymbol? .global ⟨"x", .globalVariable, token, none, [], .global⟩).elim
      empty Prod.snd
    let t₂ := (t₁.addSubScope? .global "f").elim empty Prod.snd
    let t₃ := (t₂.addSymbol? ⟨1⟩ ⟨"x", .function, token, none, [], .global⟩).elim empty Prod.snd
    let t := (t₃.addSubScope? ⟨1⟩ "block").elim empty Prod.snd
    t.Built ∧ t.Known ⟨2⟩ ∧ t.lookup? "x" .value ⟨2⟩ = some ⟨0⟩ ∧
      t.lookup? "x" .function ⟨2⟩ = some ⟨1⟩ ∧ t.lookup? "x" .any ⟨2⟩ = some ⟨1⟩ ∧
      ∀ preference, ∃ outer, t.Outwards (⟨2⟩ :: outer) ∧
        t.Resolves "x" preference (⟨2⟩ :: outer) (t.lookup? "x" preference ⟨2⟩) := by
  intro token t₁ t₂ t₃ t
  have h₁ : empty.addSymbol? .global ⟨"x", .globalVariable, token, none, [], .global⟩ =
      some (⟨0⟩, t₁) := rfl
  have h₂ : t₁.addSubScope? .global "f" = some (⟨1⟩, t₂) := rfl
  have h₃ : t₂.addSymbol? ⟨1⟩ ⟨"x", .function, token, none, [], .global⟩ = some (⟨1⟩, t₃) := rfl
  have h₄ : t₃.addSubScope? ⟨1⟩ "block" = some (⟨2⟩, t) := rfl
  have hbuilt : t.Built := .scope (.symbol (.scope (.symbol .empty h₁) h₂) h₃) h₄
  have hknown : t.Known ⟨2⟩ := by
    unfold Known
    decide +kernel
  exact ⟨hbuilt, hknown, by decide +kernel, by decide +kernel, by decide +kernel,
    hbuilt.lookup?_resolves hknown "x"⟩

/-! ## The nearest variable -/

/-- The scope declares a variable of some kind under the name. -/
def HasVariable (t : SymbolTable) (scope : ScopeId) (name : String) : Prop :=
  ∃ id symbol, t.local? scope name = some id ∧ t.symbol? id = some symbol ∧
    symbol.kind.isVariableLike

/-- The symbol is declared under the name in one of the scopes, and none of the scopes
inside of that has a variable of this name. -/
def NearestIn (t : SymbolTable) (scopes : List ScopeId) (name : String) (id : SymbolId) : Prop :=
  ∃ between scope outer, scopes = between ++ scope :: outer ∧ t.local? scope name = some id ∧
    ∀ s ∈ between, ¬ t.HasVariable s name

/-- Where there is a variable in the first scope, the nearest one is that. -/
theorem NearestIn.eq_of_hasVariable (h : t.NearestIn (scope :: scopes) name id)
    (hs : t.HasVariable scope name) : t.local? scope name = some id := by
  obtain ⟨between, s, outer, heq, hlocal, hbetween⟩ := h
  cases between with
  | nil =>
      obtain ⟨rfl, -⟩ := List.cons.inj heq
      exact hlocal
  | cons b between =>
      obtain ⟨rfl, -⟩ := List.cons.inj heq
      exact absurd hs (hbetween scope (by simp))

theorem Rooted.nearestIn_of_lookup? (h : t.Rooted) (hscopes : t.Outwards (scope :: scopes))
    (hfound : t.lookup? name .value scope = some id) (hs : t.symbol? id = some symbol)
    (hk : symbol.kind.isVariableLike) : t.NearestIn (scope :: scopes) name id := by
  have hvariable : t.isOfKind Preference.value.accepts id := by
    rw [isOfKind_of_symbol? hs]
    exact hk
  -- a nearest declaration that is a variable is the nearest variable
  have hnearest : t.nearest? Preference.value.accepts name (scope :: scopes) = some id := by
    rw [← filter_or_nearest?, ← h.lookup?_eq_nearest? hscopes, hfound, Option.filter_some,
      if_pos hvariable]
  obtain ⟨between, place, outer, heq, ⟨hlocal, -⟩, hbetween⟩ := nearest?_eq_some_iff.mp hnearest
  refine ⟨between, place, outer, heq, hlocal, fun s hs => ?_⟩
  rintro ⟨other, x, hother, hx, hkind⟩
  apply hbetween s hs other hother
  rw [isOfKind_of_symbol? hx]
  exact hkind

end ScriptFront.SymbolTable
