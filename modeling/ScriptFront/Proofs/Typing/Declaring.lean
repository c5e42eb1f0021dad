import ScriptFront.Program.Declarations
import ScriptFront.Proofs.SymbolTable.Growth

/-!
# Clean runs of the first analysis

What holds behind a run of the first analysis that reports nothing: each step is
taken from the table that the step before it has left, and a step that reports
something has nothing to show.
-/
namespace ScriptFront

/-! ## Written types -/

namespace TypeTable

variable {types : TypeTable} {written : TypeName} {type : TypeId}

theorem get?_of_resolve (h : types.resolve written = .ok type) :
    types.get? written.fullName = some type := by
  unfold resolve at h
  split at h
  · next found => rwa [Except.ok.inj h] at found
  · cases h

theorem get?_of_resolveStorage (h : types.resolveStorage written = .ok type) :
    types.get? written.fullName = some type := by
  unfold resolveStorage at h
  cases hr : types.resolve written with
  | error d =>
      rw [hr] at h
      cases h
  | ok found =>
      rw [hr] at h
      have heq : found = type := by
        simp only [bind, Except.bind, pure, Except.pure, throw] at h
        split_ifs at h
        exact Except.ok.inj h
      exact heq ▸ get?_of_resolve hr

end TypeTable

namespace Declaring

variable {α β : Type} {m : Declaring α} {t u : SymbolTable} {types : TypeTable}
  {scope : ScopeId} {Q Q' : α → SymbolTable → Prop}

/-- A run from `t` that reports nothing ends as `Q` says. -/
def Leads (m : Declaring α) (t : SymbolTable) (Q : α → SymbolTable → Prop) : Prop :=
  (m t).diagnostics = [] → Q (m t).value.1 (m t).value.2

namespace Leads

theorem mono (h : m.Leads t Q) (hQ : ∀ a u, Q a u → Q' a u) : m.Leads t Q' :=
  fun hm => hQ _ _ (h hm)

theorem of_clean {a : α} (h : m.Leads t Q) (hm : m t = ⟨(a, u), []⟩) : Q a u := by
  unfold Leads at h
  rw [hm] at h
  exact h rfl

theorem pure {a : α} (h : Q a t) : (Pure.pure a : Declaring α).Leads t Q := fun _ => h

theorem bind {f : α → Declaring β} {R : β → SymbolTable → Prop}
    (h : m.Leads t fun a u => (f a).Leads u R) : (m >>= f).Leads t R := by
  intro hclean
  change (m t).diagnostics ++ (f (m t).value.1 (m t).value.2).diagnostics = [] at hclean
  rw [List.append_eq_nil_iff] at hclean
  exact h hclean.1 hclean.2

theorem seq {f : α → Declaring β} {R : β → SymbolTable → Prop} (h : m.Leads t Q)
    (hf : ∀ a u, Q a u → (f a).Leads u R) : (m >>= f).Leads t R :=
  .bind (h.mono hf)

theorem report {fault : Fault} {token : Token} {Q : Unit → SymbolTable → Prop} :
    (Declaring.report fault token).Leads t Q := by
  intro hclean
  change [_] ++ [] = [] at hclean
  simp at hclean

theorem ofExcept {x : Except Diagnostic α} {Q : Option α → SymbolTable → Prop}
    (h : ∀ a, x = .ok a → Q (some a) t) :
    Leads (StateT.lift (Reported.ofExcept x)) t Q := by
  intro hclean
  cases x with
  | error d =>
      change [d] ++ [] = [] at hclean
      simp at hclean
  | ok a => exact h a rfl

theorem add? {addition : SymbolTable → Option (α × SymbolTable)}
    {Q : Option α → SymbolTable → Prop} (h : ∀ a u, addition t = some (a, u) → Q (some a) u)
    (hnone : addition t = none → Q none t) : (Declaring.add? addition).Leads t Q := by
  unfold Leads Declaring.add?
  rcases hadd : addition t with _ | ⟨a, u⟩
  · exact fun _ => hnone hadd
  · exact fun _ => h a u hadd

theorem modify {f : SymbolTable → SymbolTable} {Q : Unit → SymbolTable → Prop}
    (h : Q () (f t)) : Leads (modifyThe SymbolTable f) t Q := fun _ => h

end Leads

/-! ## Declarations -/

theorem newSymbol?_leads (kind : SymbolKind) (name : Token) (type? : Option TypeId) :
    (newSymbol? scope kind name type?).Leads t fun id? u =>
      (id? = none ∧ u = t) ∨ ∃ id, id? = some id ∧
        t.Adds scope { name := name.text, kind, declaration := name, type? } id u :=
  .add? (fun id _ hu => .inr ⟨id, rfl, SymbolTable.adds_of_addSymbol? hu⟩)
    fun _ => .inl ⟨rfl, rfl⟩

/-- A variable has been declared with the type that is written. -/
theorem newVariable?_leads (kind : SymbolKind) (type : TypeName) (name : Token) :
    (newVariable? types scope kind type name).Leads t fun r u => ∃ resolved id,
      r = some ({ type with resolved? := some resolved }, some id) ∧
      types.get? type.fullName = some resolved ∧
      t.Adds scope { name := name.text, kind, declaration := name, type? := some resolved } id
        u := by
  apply Leads.bind
  apply Leads.ofExcept
  intro resolved hresolved
  refine Leads.seq (newSymbol?_leads kind name (some resolved)) ?_
  rintro _ u (⟨rfl, -⟩ | ⟨id, rfl, hadds⟩)
  · exact Leads.bind Leads.report
  · apply Leads.pure
    exact ⟨resolved, id, rfl, TypeTable.get?_of_resolveStorage hresolved, hadds⟩

theorem blockScope?_leads (ht : t.Valid) (hs : t.Known scope) (hroot : scope ≠ .global)
    (name : String) : (blockScope? scope name).Leads t fun inner? u =>
      ∃ inner, inner? = some inner ∧ t.Grows u ∧ u.Valid ∧
        u.subScope? scope name = some inner := by
  apply Leads.bind
  apply Leads.add?
  · intro inner u hu
    have hopens := SymbolTable.opens_of_addSubScope? hu
    apply Leads.pure
    refine ⟨inner, rfl, (SymbolTable.Grows.refl t).opens hopens,
      ht.opens hopens fun h => absurd h hroot, hopens.opened⟩
  · intro hnone
    obtain ⟨inner, hinner⟩ := hs.addSubScope? hnone
    intro _
    exact ⟨inner, hinner, .refl t, ht, hinner⟩

end Declaring

end ScriptFront
