import ScriptFront.Proofs.SymbolTable.Walk
import ScriptFront.Proofs.SymbolTable.Nearest

/-!
# The influence of a declaration

A lookup goes through the scopes around the place where the name is used, and sees only
what is declared there under this name. So a new symbol is seen only from inside of its
scope and under its name. There it is the answer, or the answer is what it was; that it
hides something from one use and not from another depends on its kind. A new scope is not
seen at all, and from inside of it everything looks as it does around it.
-/
namespace ScriptFront.SymbolTable

variable {t u : SymbolTable} {scope inner outer : ScopeId} {scopes : List ScopeId}
  {symbol : Symbol} {id : SymbolId} {name n : String} {accepts : SymbolKind → Bool}
  {preference : Preference}

/-! ## The way outwards -/

theorem Outwards.extend (hx : t.Extends u) (h : t.Outwards scopes) : u.Outwards scopes := by
  induction h with
  | root => exact .root
  | inside hp _ ih =>
      obtain ⟨s, hs, -⟩ := Option.bind_eq_some_iff.mp hp
      exact .inside ((hx.parent (known_of_scope? hs)).trans hp) ih

theorem Outwards.liesIn_of_mem (h : t.Outwards (scope :: scopes)) (hs : outer ∈ scope :: scopes) :
    t.LiesIn scope outer := by
  generalize hchain : scope :: scopes = chain at h hs
  induction h generalizing scope scopes with
  | root =>
      obtain ⟨rfl, -⟩ := List.cons.inj hchain
      exact List.mem_singleton.mp hs ▸ .refl t _
  | @inside first second rest hp _ ih =>
      obtain ⟨rfl, -⟩ := List.cons.inj hchain
      rcases List.mem_cons.mp hs with rfl | hs
      · exact .refl t _
      · exact .of_parent? hp (ih rfl hs)

theorem nearest?_cons : t.nearest? accepts name (scope :: scopes) =
    ((t.local? scope name).filter (t.isOfKind accepts)).or (t.nearest? accepts name scopes) := by
  unfold nearest?
  rw [List.findSome?_cons]
  cases (t.local? scope name).filter (t.isOfKind accepts) <;> rfl

theorem lookup?_of_not_known (h : ¬ t.Known scope) : t.lookup? name preference scope = none := by
  have hp : t.parent? scope = none := by
    rw [parent?, scope?_of_not_known h, Option.bind_none]
  rw [lookup?, local?_of_not_known h, parentBelow?_eq_none hp]

/-! ## A new symbol -/

namespace Adds

variable (h : t.Adds scope symbol id u) (ht : t.Rooted)
include h ht

/-- In another scope, or under another name, the same is declared as before. -/
theorem filter_local?_eq (hne : ¬ (outer = scope ∧ name = symbol.name)) :
    (u.local? outer name).filter (u.isOfKind accepts) =
      (t.local? outer name).filter (t.isOfKind accepts) := by
  rw [h.local_eq, if_neg hne]
  cases hl : t.local? outer name with
  | none => rfl
  | some i =>
      obtain ⟨x, hx, -⟩ := ht.entry hl
      rw [Option.filter_some, Option.filter_some, isOfKind_of_symbol? hx,
        isOfKind_of_symbol? (h.symbol?_of hx)]

theorem nearest?_eq (hne : ∀ outer ∈ scopes, ¬ (outer = scope ∧ name = symbol.name)) :
    u.nearest? accepts name scopes = t.nearest? accepts name scopes := by
  induction scopes with
  | nil => rfl
  | cons outer scopes ih =>
      rw [nearest?_cons, nearest?_cons, h.filter_local?_eq ht (hne outer List.mem_cons_self),
        ih fun s hs => hne s (List.mem_cons_of_mem _ hs)]

/-- The nearest declaration is the new symbol or the one it was. -/
theorem nearest?_cases (accepts : SymbolKind → Bool) :
    u.nearest? accepts name scopes = t.nearest? accepts name scopes ∨
      u.nearest? accepts name scopes = some id := by
  induction scopes with
  | nil => exact .inl rfl
  | cons outer scopes ih =>
      rw [nearest?_cons, nearest?_cons]
      by_cases hnew : outer = scope ∧ name = symbol.name
      · obtain ⟨rfl, rfl⟩ := hnew
        rw [h.declared, h.free, Option.filter_some, Option.filter_none, Option.none_or]
        split_ifs
        · exact .inr rfl
        · exact ih
      · rw [h.filter_local?_eq ht hnew]
        cases (t.local? outer name).filter (t.isOfKind accepts) with
        | none => exact ih
        | some i => exact .inl rfl

/-- A lookup finds what it found before, but for lookups of the new name from inside of its
scope. Where one of these finds something else, that is the new symbol. -/
theorem lookup?_cases : u.lookup? name preference inner = t.lookup? name preference inner ∨
    name = symbol.name ∧ t.LiesIn inner scope ∧ u.lookup? name preference inner = some id := by
  by_cases hknown : t.Known inner
  case neg =>
    rw [lookup?_of_not_known hknown, lookup?_of_not_known (mt h.known_iff.mp hknown)]
    exact .inl rfl
  obtain ⟨scopes, hscopes⟩ := ht.exists_outwards hknown
  have hold : t.lookup? name preference inner = _ := ht.lookup?_eq_nearest? hscopes
  have hnow : u.lookup? name preference inner = _ :=
    (h.rooted ht).lookup?_eq_nearest? (hscopes.extend h.extend)
  rw [hold, hnow]
  by_cases hseen : name = symbol.name ∧ scope ∈ inner :: scopes
  case neg =>
    left
    have hne : ∀ outer ∈ inner :: scopes, ¬ (outer = scope ∧ name = symbol.name) := by
      rintro outer hs ⟨rfl, hname⟩
      exact hseen ⟨hname, hs⟩
    rw [h.nearest?_eq ht hne, h.nearest?_eq ht hne]
  obtain ⟨hname, hs⟩ := hseen
  have hliesIn := hscopes.liesIn_of_mem hs
  -- a preferred kind comes first: if nothing changes there, the nearest of any kind decides
  rcases h.nearest?_cases ht preference.accepts with hsame | hnew
  · rw [hsame]
    cases t.nearest? preference.accepts name (inner :: scopes) with
    | some i => exact .inl rfl
    | none =>
        rw [Option.none_or, Option.none_or]
        exact (h.nearest?_cases ht anyKind).imp_right fun hnew => ⟨hname, hliesIn, hnew⟩
  · rw [hnew]
    exact .inr ⟨hname, hliesIn, rfl⟩

end Adds

/-! ## A new scope -/

namespace Opens

variable (h : t.Opens outer name inner u)
include h

theorem nearest?_eq : u.nearest? accepts n scopes = t.nearest? accepts n scopes := by
  have hkind : u.isOfKind accepts = t.isOfKind accepts := by
    funext i
    rw [isOfKind, isOfKind, h.symbol_eq]
  unfold nearest?
  simp only [h.local_eq, hkind]

theorem lookup?_eq (ht : t.Rooted) (hs : t.Known scope) :
    u.lookup? n preference scope = t.lookup? n preference scope := by
  obtain ⟨scopes, hscopes⟩ := ht.exists_outwards hs
  rw [(h.rooted ht).lookup?_eq_nearest? (hscopes.extend h.extend), ht.lookup?_eq_nearest? hscopes,
    h.nearest?_eq, h.nearest?_eq]

/-- Nothing is declared in the new scope, so that a lookup there goes on around it. -/
theorem lookup?_inner (ht : t.Rooted) :
    u.lookup? n preference inner = u.lookup? n preference outer := by
  have hlocal : u.local? inner n = none := (h.local_eq _ _).trans (local?_of_not_known h.new)
  have hparent : u.parent? inner = some outer := by rw [h.parent_eq, if_pos rfl]
  exact lookup?_of_parent? hlocal hparent ((h.rooted ht).below hparent).1

end Opens

/-- A new symbol is seen by lookups of its name from inside of its scope only, and a new
scope by none: from inside of it a lookup finds what it finds around it. -/
theorem Built.influence (h : t.Built) :
    (∀ scope symbol id u, t.addSymbol? scope symbol = some (id, u) →
      ∀ name preference inner,
        u.lookup? name preference inner = t.lookup? name preference inner ∨
          name = symbol.name ∧ t.LiesIn inner scope ∧
            u.lookup? name preference inner = some id) ∧
    ∀ outer name inner u, t.addSubScope? outer name = some (inner, u) →
      ∀ n preference,
        (∀ scope, t.Known scope →
          u.lookup? n preference scope = t.lookup? n preference scope) ∧
        u.lookup? n preference inner = u.lookup? n preference outer := by
  constructor
  · intro scope symbol id u hadd name preference inner
    exact (adds_of_addSymbol? hadd).lookup?_cases h.rooted
  · intro outer name inner u hopen n preference
    have hopens := opens_of_addSubScope? hopen
    exact ⟨fun scope => hopens.lookup?_eq h.rooted, hopens.lookup?_inner h.rooted⟩

/-- Behind a variable of the same name in a function, a use in the function means that one,
and a call there goes on to mean the function around it. -/
theorem influence_of_shadowing :
    let token : Token := ⟨.identifier, "x", ⟨1, 1⟩⟩
    let x (kind : SymbolKind) : Symbol := ⟨"x", kind, token, none, [], .global⟩
    let t₁ := (empty.addSymbol? .global (x .function)).elim empty Prod.snd
    let t := (t₁.addSubScope? .global "f").elim empty Prod.snd
    let u := (t.addSymbol? ⟨1⟩ (x .localVariable)).elim empty Prod.snd
    t.Built ∧ t.lookup? "x" .value ⟨1⟩ = some ⟨0⟩ ∧ u.lookup? "x" .value ⟨1⟩ = some ⟨1⟩ ∧
      ∀ name preference inner,
        u.lookup? name preference inner = t.lookup? name preference inner ∨
          name = "x" ∧ t.LiesIn inner ⟨1⟩ ∧ u.lookup? name preference inner = some ⟨1⟩ := by
  intro token x t₁ t u
  have h₁ : empty.addSymbol? .global (x .function) = some (⟨0⟩, t₁) := rfl
  have h₂ : t₁.addSubScope? .global "f" = some (⟨1⟩, t) := rfl
  have h₃ : t.addSymbol? ⟨1⟩ (x .localVariable) = some (⟨1⟩, u) := rfl
  have hbuilt : t.Built := .scope (.symbol .empty h₁) h₂
  have hbefore : t.lookup? "x" .value ⟨1⟩ = some ⟨0⟩ := by decide +kernel
  have hbehind : u.lookup? "x" .value ⟨1⟩ = some ⟨1⟩ := by decide +kernel
  exact ⟨hbuilt, hbefore, hbehind, hbuilt.influence.1 ⟨1⟩ (x .localVariable) ⟨1⟩ u h₃⟩

end ScriptFront.SymbolTable
