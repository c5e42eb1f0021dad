import Mathlib.Data.List.Forall2
import ScriptFront.Diagnostic.Basic
import ScriptFront.Proofs.Source.Places
import ScriptFront.Token.Basic

/-!
# Diagnostics that are alike

Two texts with the same words have the same tokens but for their places. A relation
pairs the tokens of such texts if related tokens have the same word and come in the
same order. Two diagnostics are alike if they report the same fault at related tokens,
where a fault that tells the line of a declaration tells that of related declarations.
The declarations are related by a relation of their own.
-/
namespace ScriptFront

/-- Related tokens have the same kind and the same text, and one stands before another
exactly if the related ones do. -/
structure Token.Pairing (R : Token → Token → Prop) : Prop where
  kind_eq {s s' : Token} : R s s' → s.kind = s'.kind
  text_eq {s s' : Token} : R s s' → s.text = s'.text
  lt_iff {s s' t t' : Token} : R s s' → R t t' →
    (s.position < t.position ↔ s'.position < t'.position)

/-- The tokens have the same index in two lists. -/
def Token.SameIndex (tokens tokens' : List Token) (s s' : Token) : Prop :=
  ∃ i : ℕ, tokens[i]? = some s ∧ tokens'[i]? = some s'

section
variable (R D : Token → Token → Prop)

/-- The faults are the same, but for the line of a declaration: that is the line of
related declarations of the name, which stand behind the place of use. -/
def Fault.Alike (use : Token) : Fault → Fault → Prop
  | .usedBeforeDeclaration symbol line, .usedBeforeDeclaration symbol' line' =>
      symbol = symbol' ∧ ∃ s s', D s s' ∧ s.text = symbol ∧ use.position < s.position ∧
        s.position.line = line ∧ s'.position.line = line'
  | f, f' => f = f'

/-- The diagnostics report alike faults at related tokens. -/
inductive Diagnostic.Alike : Diagnostic → Diagnostic → Prop
  | intro {fault fault' : Fault} {t t' : Token} : R t t' → fault.Alike D t fault' →
      Alike ⟨fault, t.position⟩ ⟨fault', t'.position⟩

end

variable {R D : Token → Token → Prop}

theorem Fault.Alike.mono {D' : Token → Token → Prop} (hD : ∀ s s', D s s' → D' s s')
    {fault fault' : Fault} {use : Token} (h : fault.Alike D use fault') :
    fault.Alike D' use fault' := by
  unfold Fault.Alike at h
  split at h
  · obtain ⟨hname, s, s', hs, hrest⟩ := h
    exact ⟨hname, s, s', hD s s' hs, hrest⟩
  · next hother =>
      subst h
      cases fault with
      | usedBeforeDeclaration symbol line => exact (hother symbol line symbol line rfl rfl).elim
      | _ => exact rfl

theorem Diagnostic.Alike.mono {D' : Token → Token → Prop} (hD : ∀ s s', D s s' → D' s s')
    {d d' : Diagnostic} (h : d.Alike R D d') : d.Alike R D' d' := by
  cases h with
  | intro ht hfault => exact .intro ht (hfault.mono hD)

theorem Position.eq_of_not_lt {p q : Position} (h : ¬ p < q) (h' : ¬ q < p) : p = q := by
  cases p
  cases q
  simp only [Position.lt_iff, Position.mk.injEq] at h h' ⊢
  omega

/-- Related tokens stand in one place exactly if their partners do. -/
theorem Token.Pairing.position_eq_iff (hR : Pairing R) {s s' t t' : Token} (hs : R s s')
    (ht : R t t') : s.position = t.position ↔ s'.position = t'.position := by
  have hst := hR.lt_iff hs ht
  have hts := hR.lt_iff ht hs
  constructor
  · intro h
    apply Position.eq_of_not_lt
    · rw [← hst, h]
      exact Position.lt_irrefl _
    · rw [← hts, h]
      exact Position.lt_irrefl _
  · intro h
    apply Position.eq_of_not_lt
    · rw [hst, h]
      exact Position.lt_irrefl _
    · rw [hts, h]
      exact Position.lt_irrefl _

end ScriptFront
