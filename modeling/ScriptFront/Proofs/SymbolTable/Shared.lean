import ScriptFront.Proofs.SymbolTable.Corresponding

/-!
# What two tables share

Two tables into which the same has been declared under one name correspond in what is
inside of that, whatever has been declared before and behind it. From outside they share
the names that mean the same in both global scopes.
-/
namespace ScriptFront.SymbolTable

open Site (NewScopes NewSymbols SameScope Within)

variable {N : String → Prop} {b b' t u v w : SymbolTable} {name n : String}
  {s s' inner : ScopeId} {i i' j j' : SymbolId} {x y : Symbol}

theorem Nested.local?_iff (h : t.Nested) (hx : t.symbol? i = some x) :
    t.local? s n = some i ↔ x.scope = s ∧ x.name = n := by
  constructor
  · intro hl
    obtain ⟨y, hy, hname, hscope⟩ := h.entry hl
    obtain rfl := Option.some.inj (hx.symm.trans hy)
    exact ⟨hscope, hname⟩
  · rintro ⟨rfl, rfl⟩
    exact h.listed hx

/-! ## Between two tables -/

/-- What has been declared behind the table `b` under the name, and inside of that, leads to
the table `t`. From there to `v` nothing has been declared under the name. -/
structure Between (b : SymbolTable) (name : String) (t v : SymbolTable) : Prop where
  before : b.Nested
  nested : t.Nested
  after : v.Nested
  later : ∃ names, name ∉ names ∧ t.Confined .global names v

namespace Between

variable (h : b.Between name t v)
include h

theorem local_eq (hs : t.Known s) (hne : s ≠ .global) : v.local? s n = t.local? s n := by
  obtain ⟨names, -, hconfined⟩ := h.later
  exact hconfined.local_eq hs fun heq => absurd heq hne

theorem sub_eq (hs : t.Known s) (hn : s = .global → n = name) :
    v.subScope? s n = t.subScope? s n := by
  obtain ⟨names, hname, hconfined⟩ := h.later
  exact hconfined.sub_eq hs fun heq => hn heq ▸ hname

theorem parent_eq (hs : t.Known s) : v.parent? s = t.parent? s := by
  obtain ⟨names, -, hconfined⟩ := h.later
  exact hconfined.parent_eq hs

theorem symbol_eq (hi : i.index < t.symbols.size) : v.symbol? i = t.symbol? i := by
  obtain ⟨names, -, hconfined⟩ := h.later
  exact hconfined.symbol_eq hi

end Between

/-! ## Inside -/

/-- The scopes have been opened in the same step behind `b` and `b'`, on the way to `t`. -/
def Inside (b b' t : SymbolTable) (s s' : ScopeId) : Prop :=
  NewScopes ⟨b, .global⟩ ⟨b', .global⟩ s s' ∧ t.Known s

/-- The symbols have been declared in the same step behind `b` and `b'`, on the way to `t`;
or they are what a name of `N` is declared as in the global scopes of `v` and `w`. -/
inductive Shared (N : String → Prop) (b b' t v w : SymbolTable) : SymbolId → SymbolId → Prop
  | inside {i i' : SymbolId} : NewSymbols ⟨b, .global⟩ ⟨b', .global⟩ i i' →
      i.index < t.symbols.size → Shared N b b' t v w i i'
  | outside {n : String} {i i' : SymbolId} : N n → v.local? .global n = some i →
      w.local? .global n = some i' → Shared N b b' t v w i i'

/-- The symbols mean the same, and both or neither of them are declared in the global scope
under the same name. -/
structure Common (x y : Symbol) : Prop where
  meaning : x.meaning = y.meaning
  place : ∀ n, x.scope = .global ∧ x.name = n ↔ y.scope = .global ∧ y.name = n

theorem scope_eq_global_iff (hs : SameScope ⟨b, .global⟩ ⟨b', .global⟩ s s') (hb : b.Nested)
    (hb' : b'.Nested) : s = .global ↔ s' = .global := by
  rcases hs with ⟨rfl, rfl⟩ | hs
  · exact Iff.rfl
  · obtain ⟨hne, hne'⟩ := hs.ne_scope hb.root hb'.root
    exact iff_of_false hne hne'

namespace Beside

variable (h : Beside ⟨b, .global⟩ ⟨b', .global⟩ name t u) (hl : b.Between name t v)
  (hr : b'.Between name u w) (hN : ∀ n, N n → v.meaning? .global n = w.meaning? .global n)
include h hl hr

/-- On the way to `t` and `u`, as many scopes have been opened. -/
theorem inside_known (hs : Inside b b' t s s') :
    t.Known s ∧ s ≠ .global ∧ u.Known s' ∧ s' ≠ .global := by
  obtain ⟨hne, hne'⟩ := hs.1.ne_scope hl.before.root hr.before.root
  exact ⟨hs.2, hne, (h.known_iff (.inr hs.1)).mp hs.2, hne'⟩

theorem inside_symbol (hi : NewSymbols ⟨b, .global⟩ ⟨b', .global⟩ i i')
    (hlt : i.index < t.symbols.size) :
    Option.Rel (Symbol.Twin ⟨b, .global⟩ ⟨b', .global⟩) (v.symbol? i) (w.symbol? i') := by
  obtain ⟨k, hk, hk'⟩ := hi
  obtain ⟨l, ht, hu⟩ := h.symbols
  have hlt' : i'.index < u.symbols.size := by
    dsimp only at hk hk' ht hu
    omega
  rw [hl.symbol_eq hlt, hr.symbol_eq hlt']
  exact h.symbol_rel ⟨k, hk, hk'⟩

include hN in
theorem shared_common (hi : Shared N b b' t v w i i') :
    Option.Rel Common (v.symbol? i) (w.symbol? i') := by
  cases hi with
  | inside hi hlt =>
      have hsymbol := h.inside_symbol hl hr hi hlt
      generalize v.symbol? i = x? at hsymbol
      generalize w.symbol? i' = y? at hsymbol
      cases hsymbol with
      | none => exact .none
      | some hxy =>
          refine .some ⟨hxy.meaning, fun n => ?_⟩
          rw [hxy.name, scope_eq_global_iff hxy.scope hl.before hr.before]
  | @outside n _ _ hn hlocal hlocal' =>
      obtain ⟨x, hx, hname, hscope⟩ := hl.after.entry hlocal
      obtain ⟨y, hy, hname', hscope'⟩ := hr.after.entry hlocal'
      have hmeaning := hN n hn
      rw [meaning?_of_local? hlocal hx, meaning?_of_local? hlocal' hy] at hmeaning
      rw [hx, hy]
      exact .some ⟨Option.some.inj hmeaning, fun m => by rw [hname, hname', hscope, hscope']⟩

include hN in
theorem shared_local_iff (hi : Shared N b b' t v w i i') :
    v.local? .global n = some i ↔ w.local? .global n = some i' := by
  have hcommon := h.shared_common hl hr hN hi
  generalize hx : v.symbol? i = x? at hcommon
  generalize hy : w.symbol? i' = y? at hcommon
  cases hcommon with
  | some hxy => rw [hl.after.local?_iff hx, hr.after.local?_iff hy, hxy.place]
  | none =>
      refine iff_of_false (fun hlocal => ?_) fun hlocal => ?_
      · obtain ⟨x, hsymbol, -⟩ := hl.after.entry hlocal
        cases hx.symm.trans hsymbol
      · obtain ⟨y, hsymbol, -⟩ := hr.after.entry hlocal
        cases hy.symm.trans hsymbol

include hN in
theorem shared_eq_iff (hi : Shared N b b' t v w i i') (hj : Shared N b b' t v w j j') :
    i = j ↔ i' = j' := by
  have houtside {i i' j j' : SymbolId} {n : String} (hi : Shared N b b' t v w i i')
      (hj : v.local? .global n = some j) (hj' : w.local? .global n = some j') :
      i = j ↔ i' = j' := by
    have hplace := h.shared_local_iff (n := n) hl hr hN hi
    rw [hj, hj', Option.some.injEq, Option.some.injEq] at hplace
    rw [eq_comm, hplace, eq_comm]
  cases hj with
  | outside hn hlocal hlocal' => exact houtside hi hlocal hlocal'
  | inside hj hltj =>
      cases hi with
      | inside hi hlt => exact hi.eq_iff hj
      | outside hn hlocal hlocal' =>
          rw [eq_comm, houtside (.inside hj hltj) hlocal hlocal', eq_comm]

theorem inside_local (hs : Inside b b' t s s') :
    Option.Rel (Shared N b b' t v w) (v.local? s n) (w.local? s' n) := by
  obtain ⟨hknown, hne, hknown', hne'⟩ := h.inside_known hl hr hs
  have hlocal := h.local_rel (n := n) (.new hs.1)
  rw [hl.local_eq hknown hne, hr.local_eq hknown' hne']
  generalize hi : t.local? s n = i? at hlocal
  generalize u.local? s' n = i?' at hlocal
  cases hlocal with
  | none => exact .none
  | some hnew =>
      obtain ⟨x, hx, -⟩ := hl.nested.entry hi
      exact .some (.inside hnew (symbol_lt_of_symbol? hx))

theorem own_scope : Option.Rel (Inside b b' t) (v.subScope? .global name)
    (w.subScope? .global name) := by
  have hsub := h.sub_rel (.global rfl rfl)
  rw [hl.sub_eq hl.nested.root fun _ => rfl, hr.sub_eq hr.nested.root fun _ => rfl]
  generalize hinner : t.subScope? .global name = inner? at hsub
  generalize u.subScope? .global name = inner?' at hsub
  cases hsub with
  | none => exact .none
  | some hnew => exact .some ⟨hnew, hl.nested.known_inner hinner⟩

theorem inside_scope (hs : Inside b b' t s s') :
    Option.Rel (Inside b b' t) (v.subScope? s n) (w.subScope? s' n) := by
  obtain ⟨hknown, hne, hknown', hne'⟩ := h.inside_known hl hr hs
  have hsub := h.sub_rel (n := n) (.new hs.1)
  rw [hl.sub_eq hknown fun heq => absurd heq hne, hr.sub_eq hknown' fun heq => absurd heq hne']
  generalize hinner : t.subScope? s n = inner? at hsub
  generalize u.subScope? s' n = inner?' at hsub
  cases hsub with
  | none => exact .none
  | some hnew => exact .some ⟨hnew, hl.nested.known_inner hinner⟩

theorem inside_parent (hs : Inside b b' t s s') :
    Option.Rel (Both (Inside b b' t)) (v.parent? s) (w.parent? s') := by
  obtain ⟨hknown, -, hknown', -⟩ := h.inside_known hl hr hs
  have hparent := h.parent_rel hs.1
  rw [hl.parent_eq hknown, hr.parent_eq hknown']
  generalize houter : t.parent? s = outer? at hparent
  generalize u.parent? s' = outer?' at hparent
  cases hparent with
  | none => exact .none
  | some hsame =>
      rcases hsame with ⟨rfl, rfl⟩ | hnew
      · exact .some (.inl ⟨rfl, rfl⟩)
      · exact .some (.inr ⟨hnew, hl.nested.known_outer houter⟩)

omit hr in
/-- The outermost of the scopes is the one of the name. -/
theorem inside_own (hs : Inside b b' t s s') (hp : v.parent? s = some .global) :
    t.subScope? .global name = some s := by
  rw [hl.parent_eq hs.2] at hp
  obtain ⟨-, n, hn⟩ := hl.nested.below hp
  by_cases hname : n = name
  · exact hname ▸ hn
  · rw [h.left.sub_eq hl.before.root fun _ => by simpa using hname] at hn
    exact absurd (hl.before.known_inner hn) hs.1.not_known.1

include hN in
/-- The tables correspond in what is inside of the name and in the names outside. -/
theorem corresponds (hresult : ∀ s, t.subScope? .global name = some s →
      ∃ id, t.local? s Symbol.returnValueName = some id) :
    Corresponds (Inside b b' t) (Shared N b b' t v w) N v w where
  nested := hl.after
  nested' := hr.after
  local_rel hs := h.inside_local hl hr hs
  global_rel {n} hn := by
    have hsome : (v.local? .global n).isSome = (w.local? .global n).isSome := by
      rw [← hl.after.isSome_meaning?, hN n hn, hr.after.isSome_meaning?]
    apply rel_of_none_iff
    · rw [← Option.not_isSome_iff_eq_none, hsome, Option.not_isSome_iff_eq_none]
    · exact fun _ _ => .outside hn
  sub_rel hs := h.inside_scope hl hr hs
  parent_rel hs := h.inside_parent hl hr hs
  result {s s'} hs hp := by
    obtain ⟨id, hid⟩ := hresult s (h.inside_own hl hs hp)
    obtain ⟨hknown, hne, -⟩ := h.inside_known hl hr hs
    exact ⟨id, (hl.local_eq hknown hne).trans hid⟩
  symbol_rel hi := by
    have hcommon := h.shared_common hl hr hN hi
    generalize v.symbol? _ = x? at hcommon
    generalize w.symbol? _ = y? at hcommon
    cases hcommon with
    | none => exact .none
    | some hxy => exact .some hxy.meaning
  eq_iff := h.shared_eq_iff hl hr hN

end Beside

end ScriptFront.SymbolTable
