import ScriptFront.Proofs.Diagnostic.Alike
import ScriptFront.Proofs.SymbolTable.Growth
import ScriptFront.Proofs.Token.Numbers
import ScriptFront.Stmt.Basic

/-!
# Symbol tables that are alike

Two tables are alike if they answer alike, where the places of tokens show in them in
two ways: a symbol keeps the token that declares it, and the scope of a block has a
name that is made from the place of its brace. As related tokens come in the same order,
the names of two blocks are equal in one table exactly if they are in the other. Such
names are never mixed with those of functions, which are found in the global scope only.
-/
namespace ScriptFront

/-! ## Names of blocks -/

theorem Position.text_injective {p q : Position} (h : p.text = q.text) : p = q := by
  have hdigits := fun (r : Position) => Numeral.takeWhile_isDigit
    (r := ':' :: Nat.toDigits 10 r.column) (Numeral.isDigits_toDigits r.line)
    (by simp [Char.isDigit])
  have htext : ∀ r : Position,
      r.text.toList = Nat.toDigits 10 r.line ++ ':' :: Nat.toDigits 10 r.column := by
    intro r
    rw [text, String.toList_append, String.toList_append, Numeral.toList_toString,
      Numeral.toList_toString, List.append_assoc]
    rfl
  have hlist := congrArg String.toList h
  rw [htext, htext] at hlist
  have hline := congrArg (List.takeWhile Char.isDigit) hlist
  have hcolumn := congrArg (List.dropWhile Char.isDigit) hlist
  rw [(hdigits p).1, (hdigits q).1] at hline
  rw [(hdigits p).2, (hdigits q).2] at hcolumn
  have hvalue := congrArg Numeral.decimal hline
  have hvalue' := congrArg Numeral.decimal (List.cons.inj hcolumn).2
  simp only [Numeral.decimal_toDigits] at hvalue hvalue'
  cases p
  cases q
  simp_all

theorem Stmt.blockScopeName_inj {s t : Token} :
    blockScopeName s = blockScopeName t ↔ s.position = t.position := by
  constructor
  · intro h
    rw [blockScopeName, blockScopeName, String.append_right_inj] at h
    exact Position.text_injective h
  · intro h
    rw [blockScopeName, blockScopeName, h]

/-- Names under which two tables have the same scope in a scope: the name of a function
in the global scope, and names of blocks that begin with related braces elsewhere. -/
inductive ScopeNames (R : Token → Token → Prop) : ScopeId → String → String → Prop
  | function {name : String} : ScopeNames R .global name name
  | block {scope : ScopeId} {s s' : Token} : scope ≠ .global → R s s' →
      ScopeNames R scope (Stmt.blockScopeName s) (Stmt.blockScopeName s')

theorem ScopeNames.eq_iff {R : Token → Token → Prop} (hR : Token.Pairing R) {scope : ScopeId}
    {m m' n n' : String} (hm : ScopeNames R scope m m') (hn : ScopeNames R scope n n') :
    m = n ↔ m' = n' := by
  cases hm with
  | function =>
      cases hn with
      | function => rfl
      | block hne => exact absurd rfl hne
  | block hne hs =>
      cases hn with
      | function => exact absurd rfl hne
      | block _ ht =>
          rw [Stmt.blockScopeName_inj, Stmt.blockScopeName_inj]
          exact hR.position_eq_iff hs ht

/-! ## Tables -/

section
variable (R D : Token → Token → Prop)

/-- The symbols differ in the tokens of their declarations only, and these are related.
A variable has its name from its declaration. -/
structure Symbol.Alike (s s' : Symbol) : Prop where
  name : s.name = s'.name
  kind : s.kind = s'.kind
  declaration : D s.declaration s'.declaration
  declared : s.kind.isOrdered → s.declaration.text = s.name
  type : s.type? = s'.type?
  params : s.params = s'.params
  scope : s.scope = s'.scope

/-- The tables answer alike. -/
structure SymbolTable.Alike (t t' : SymbolTable) : Prop where
  size : t.scopes.size = t'.scopes.size
  root : t.Known .global
  parent (scope : ScopeId) : t.parent? scope = t'.parent? scope
  declared (scope : ScopeId) (name : String) : t.local? scope name = t'.local? scope name
  symbol (id : SymbolId) : Option.Rel (Symbol.Alike D) (t.symbol? id) (t'.symbol? id)
  opened {scope : ScopeId} {name name' : String} : ScopeNames R scope name name' →
    t.subScope? scope name = t'.subScope? scope name'
  inner {scope inner : ScopeId} {name : String} : t.subScope? scope name = some inner →
    inner ≠ .global

end

variable {R D : Token → Token → Prop} {t t' u u' : SymbolTable} {scope : ScopeId}
  {symbol symbol' : Symbol} {name name' : String}

namespace SymbolTable.Alike

theorem empty : Alike R D empty empty where
  size := rfl
  root := valid_empty.root
  parent _ := rfl
  declared _ _ := rfl
  symbol _ := .none
  opened {scope _ _} hnames := by
    cases hnames with
    | function => rfl
    | block hne =>
        have hunknown : ¬ SymbolTable.empty.Known scope := by
          intro hknown
          apply hne
          cases scope
          exact congrArg ScopeId.mk (Nat.lt_one_iff.mp hknown)
        rw [subScope?_of_not_known hunknown, subScope?_of_not_known hunknown]
  inner := valid_empty.child_ne_global

section
variable (h : t.Alike R D t')
include h

theorem known_iff (scope : ScopeId) : t.Known scope ↔ t'.Known scope := by
  rw [Known, Known, h.size]

theorem count_eq : t.symbols.size = t'.symbols.size := by
  apply count_eq_of_isSome
  intro id
  have hid := h.symbol id
  generalize t.symbol? id = s? at hid
  generalize t'.symbol? id = s?' at hid
  cases hid <;> rfl

theorem adds {id id' : SymbolId} (hs : symbol.Alike D symbol') (hu : t.Adds scope symbol id u)
    (hu' : t'.Adds scope symbol' id' u') : id = id' ∧ u.Alike R D u' := by
  obtain rfl : id = id' := by rw [hu.id_eq, hu'.id_eq, h.count_eq]
  refine ⟨rfl, ?_⟩
  constructor
  case size => rw [hu.size, hu'.size, h.size]
  case root =>
    unfold Known
    rw [hu.size]
    exact h.root
  case parent =>
    intro s
    rw [hu.parent_eq, hu'.parent_eq, h.parent]
  case declared =>
    intro s n
    rw [hu.local_eq, hu'.local_eq, h.declared, hs.name]
  case symbol =>
    intro i
    rw [hu.symbol_eq, hu'.symbol_eq]
    split_ifs
    · exact .some { hs with scope := rfl }
    · exact h.symbol i
  case opened =>
    intro s n n' hnames
    rw [hu.sub_eq, hu'.sub_eq]
    exact h.opened hnames
  case inner =>
    intro s c n hc
    rw [hu.sub_eq] at hc
    exact h.inner hc

theorem addSymbol? (hs : symbol.Alike D symbol') :
    Option.Rel (fun a b => a.1 = b.1 ∧ a.2.Alike R D b.2) (t.addSymbol? scope symbol)
      (t'.addSymbol? scope symbol') := by
  have hnone : t.addSymbol? scope symbol = none ↔ t'.addSymbol? scope symbol' = none := by
    rw [addSymbol?_eq_none_iff, addSymbol?_eq_none_iff, h.known_iff, h.declared, hs.name]
  cases ha : t.addSymbol? scope symbol with
  | none =>
      rw [hnone.mp ha]
      exact .none
  | some a =>
      cases hb : t'.addSymbol? scope symbol' with
      | none =>
          rw [hnone.mpr hb] at ha
          cases ha
      | some b => exact .some (h.adds hs (adds_of_addSymbol? ha) (adds_of_addSymbol? hb))

variable (hR : Token.Pairing R)
include hR

theorem opens {inner inner' : ScopeId} (hnames : ScopeNames R scope name name')
    (hu : t.Opens scope name inner u) (hu' : t'.Opens scope name' inner' u') :
    (inner = inner' ∧ inner ≠ .global) ∧ u.Alike R D u' := by
  obtain rfl : inner = inner' := by rw [hu.inner_eq, hu'.inner_eq, h.size]
  have hnew := (h.root.ne hu.fresh).symm
  refine ⟨⟨rfl, hnew⟩, ?_⟩
  constructor
  case size => rw [hu.size, hu'.size, h.size]
  case root => exact hu.grow_known h.root
  case parent =>
    intro s
    rw [hu.parent_eq, hu'.parent_eq, h.parent]
  case declared =>
    intro s n
    rw [hu.local_eq, hu'.local_eq, h.declared]
  case symbol =>
    intro i
    rw [hu.symbol_eq, hu'.symbol_eq]
    exact h.symbol i
  case opened =>
    intro s n n' hn
    rw [hu.sub_eq, hu'.sub_eq]
    by_cases hs : s = scope
    · subst hs
      simp only [hn.eq_iff hR hnames, h.opened hn]
    · simp only [hs, false_and, if_false, h.opened hn]
  case inner =>
    intro s c n hc
    rcases hu.subScope?_cases hc with ⟨-, -, rfl⟩ | hc
    · exact hnew
    · exact h.inner hc

theorem addSubScope? (hnames : ScopeNames R scope name name') :
    Option.Rel (fun a b => (a.1 = b.1 ∧ a.1 ≠ .global) ∧ a.2.Alike R D b.2)
      (t.addSubScope? scope name) (t'.addSubScope? scope name') := by
  have hnone : t.addSubScope? scope name = none ↔ t'.addSubScope? scope name' = none := by
    rw [addSubScope?_eq_none_iff, addSubScope?_eq_none_iff, h.known_iff, h.opened hnames]
  cases ha : t.addSubScope? scope name with
  | none =>
      rw [hnone.mp ha]
      exact .none
  | some a =>
      cases hb : t'.addSubScope? scope name' with
      | none =>
          rw [hnone.mpr hb] at ha
          cases ha
      | some b =>
          exact .some (h.opens hR hnames (opens_of_addSubScope? ha) (opens_of_addSubScope? hb))

omit hR in
theorem setSignature (id : SymbolId) (type? : Option TypeId)
    (params : List (String × Option TypeId)) :
    (t.setSignature id type? params).Alike R D (t'.setSignature id type? params) := by
  refine { h with symbol := fun i => ?_ }
  rw [symbol?_setSignature, symbol?_setSignature]
  split_ifs
  · have hi := h.symbol i
    generalize t.symbol? i = s? at hi
    generalize t'.symbol? i = s?' at hi
    cases hi with
    | none => exact .none
    | some hs => exact .some { hs with type := rfl, params := rfl }
  · exact h.symbol i

/-! ## Lookups -/

omit hR in
theorem parentBelow?_eq (scope : ScopeId) : t.parentBelow? scope = t'.parentBelow? scope := by
  have hparent := h.parent scope
  unfold parent? at hparent
  unfold parentBelow?
  rw [hparent]

omit hR in
theorem isPreferred_eq (preference : Preference) (id : SymbolId) :
    t.isPreferred preference id = t'.isPreferred preference id := by
  have hid := h.symbol id
  unfold isPreferred
  generalize t.symbol? id = s? at hid
  generalize t'.symbol? id = s?' at hid
  cases hid with
  | none => rfl
  | some hs => rw [Option.map_some, Option.map_some, hs.kind]

omit hR in
theorem lookup?_eq (name : String) (preference : Preference) (scope : ScopeId) :
    t.lookup? name preference scope = t'.lookup? name preference scope := by
  have hpreferred : t.isPreferred preference = t'.isPreferred preference :=
    funext fun id => h.isPreferred_eq preference id
  induction scope using lookup?.induct t name preference with
  | case1 scope hl p hlt hp ih =>
      rw [lookup?, lookup?, ← h.declared, ← h.parentBelow?_eq, hl, hp]
      exact ih
  | case2 scope hl hp =>
      rw [lookup?, lookup?, ← h.declared, ← h.parentBelow?_eq, hl, hp]
  | case3 scope found hl hpref =>
      rw [lookup?, lookup?, ← h.declared, hl, ← hpreferred]
      simp only [hpref, if_true]
  | case4 scope found hl hpref p hlt hp ih =>
      rw [lookup?, lookup?, ← h.declared, ← h.parentBelow?_eq, hl, hp, ← hpreferred]
      simp only [hpref, Bool.false_eq_true, if_false, ih]
  | case5 scope found hl hpref hp =>
      rw [lookup?, lookup?, ← h.declared, ← h.parentBelow?_eq, hl, hp, ← hpreferred]

end

end SymbolTable.Alike

end ScriptFront
