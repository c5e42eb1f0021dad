import ScriptFront.Proofs.SymbolTable.Beside
import ScriptFront.Proofs.SymbolTable.Nesting

/-!
# Corresponding parts of tables

Two tables may differ widely and still have a part in common. From its scopes, the names
that mean the same in both global scopes stand for corresponding symbols, however the
symbols and scopes are numbered.
-/
namespace ScriptFront.SymbolTable

variable {I : ScopeId → ScopeId → Prop} {S : SymbolId → SymbolId → Prop} {N : String → Prop}
  {t u : SymbolTable} {s s' : ScopeId} {i i' : SymbolId} {name : String}

/-- The scopes correspond, or both are the global one. -/
def Both (I : ScopeId → ScopeId → Prop) (s s' : ScopeId) : Prop :=
  s = .global ∧ s' = .global ∨ I s s'

/-- The scopes that `I` relates lie in corresponding ones and have the same inside. They
contain all of a function, its result in the outermost. In the global scopes the names of
`N` correspond. Symbols that `S` relates mean the same. -/
structure Corresponds (I : ScopeId → ScopeId → Prop) (S : SymbolId → SymbolId → Prop)
    (N : String → Prop) (t u : SymbolTable) : Prop where
  nested : t.Nested
  nested' : u.Nested
  local_rel {s s' : ScopeId} {n : String} : I s s' →
    Option.Rel S (t.local? s n) (u.local? s' n)
  global_rel {n : String} : N n → Option.Rel S (t.local? .global n) (u.local? .global n)
  sub_rel {s s' : ScopeId} {n : String} : I s s' →
    Option.Rel I (t.subScope? s n) (u.subScope? s' n)
  parent_rel {s s' : ScopeId} : I s s' → Option.Rel (Both I) (t.parent? s) (u.parent? s')
  result {s s' : ScopeId} : I s s' → t.parent? s = some .global →
    ∃ id, t.local? s Symbol.returnValueName = some id
  symbol_rel {i i' : SymbolId} : S i i' →
    Option.Rel (fun x y => x.meaning = y.meaning) (t.symbol? i) (u.symbol? i')
  eq_iff {i i' j j' : SymbolId} : S i i' → S j j' → (i = j ↔ i' = j')

namespace Corresponds

variable (h : Corresponds I S N t u)
include h

theorem isPreferred_eq (preference : Preference) (hi : S i i') :
    t.isPreferred preference i = u.isPreferred preference i' := by
  have hrel := h.symbol_rel hi
  unfold isPreferred
  generalize t.symbol? i = x? at hrel
  generalize u.symbol? i' = y? at hrel
  cases hrel with
  | none => rfl
  | some hxy =>
      rw [Option.map_some, Option.map_some]
      exact congrArg (fun m => preference.accepts m.kind) hxy

theorem filter_rel (preference : Preference) {a? b? : Option SymbolId} (hab : Option.Rel S a? b?) :
    Option.Rel S (a?.filter (t.isPreferred preference)) (b?.filter (u.isPreferred preference)) := by
  cases hab with
  | none => exact .none
  | @some a b hab =>
      rw [Option.filter_some, Option.filter_some, h.isPreferred_eq preference hab]
      split_ifs
      · exact .some hab
      · exact .none

theorem eq_iff_of_rel {i? i?' j? j?' : Option SymbolId} (hi : Option.Rel S i? i?')
    (hj : Option.Rel S j? j?') : i? = j? ↔ i?' = j?' := by
  cases hi with
  | none => cases hj <;> simp
  | some hi =>
      cases hj with
      | none => simp
      | some hj => simpa using h.eq_iff hi hj

theorem both_local (hs : Both I s s') (hn : N name) :
    Option.Rel S (t.local? s name) (u.local? s' name) := by
  rcases hs with ⟨rfl, rfl⟩ | hs
  · exact h.global_rel hn
  · exact h.local_rel hs

theorem both_parent (hs : Both I s s') : Option.Rel (Both I) (t.parent? s) (u.parent? s') := by
  rcases hs with ⟨rfl, rfl⟩ | hs
  · rw [h.nested.global_orphan, h.nested'.global_orphan]
    exact .none
  · exact h.parent_rel hs

theorem lookup_rel (preference : Preference) (hs : Both I s s') (hn : N name) :
    Option.Rel S (t.lookup? name preference s) (u.lookup? name preference s') := by
  induction s using h.nested.outwards generalizing s' with
  | step s ih =>
      have hlocal := h.both_local hs hn
      have houter : Option.Rel S ((t.parent? s).bind (t.lookup? name preference))
          ((u.parent? s').bind (u.lookup? name preference)) := by
        have hparent := h.both_parent hs
        generalize hp : t.parent? s = p? at hparent
        generalize u.parent? s' = p?' at hparent
        cases hparent with
        | none => exact .none
        | some hparent => exact ih _ hp hparent
      rw [h.nested.lookup?_eq, h.nested'.lookup?_eq]
      generalize t.local? s name = found? at hlocal
      generalize u.local? s' name = found?' at hlocal
      cases hlocal with
      | none => exact houter
      | some hfound =>
          dsimp only
          rw [h.isPreferred_eq preference hfound]
          split_ifs
          · exact .some hfound
          · have hfilter := h.filter_rel preference houter
            generalize Option.filter _ _ = a? at hfilter
            generalize Option.filter (u.isPreferred preference) _ = b? at hfilter
            cases hfilter with
            | none => exact .some hfound
            | some hab => exact .some hab

theorem lookup_result_rel (hs : I s s') :
    Option.Rel S (t.lookup? Symbol.returnValueName .any s)
      (u.lookup? Symbol.returnValueName .any s') := by
  induction s using h.nested.outwards generalizing s' with
  | step s ih =>
      have hlocal := h.local_rel (n := Symbol.returnValueName) hs
      generalize hl : t.local? s Symbol.returnValueName = id? at hlocal
      generalize hl' : u.local? s' Symbol.returnValueName = id?' at hlocal
      cases hlocal with
      | some hid =>
          obtain ⟨x, hx, -⟩ := h.nested.entry hl
          obtain ⟨y, hy, -⟩ := h.nested'.entry hl'
          rw [lookup?_any_of_local? hl ⟨x, hx⟩, lookup?_any_of_local? hl' ⟨y, hy⟩]
          exact .some hid
      | none =>
          have hparent := h.parent_rel hs
          rw [h.nested.lookup?_eq, h.nested'.lookup?_eq, hl, hl']
          generalize hp : t.parent? s = p? at hparent
          generalize u.parent? s' = p?' at hparent
          cases hparent with
          | none => exact .none
          | some hparent =>
              -- The outermost of the scopes has a result, so the global one is not reached.
              rcases hparent with ⟨rfl, -⟩ | hparent
              · obtain ⟨id, hid⟩ := h.result hs hp
                cases hl.symm.trans hid
              · exact ih _ hp hparent

end Corresponds

end ScriptFront.SymbolTable
