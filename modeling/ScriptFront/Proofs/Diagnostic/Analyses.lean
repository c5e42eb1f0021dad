import Mathlib.Tactic.Common
import ScriptFront.Diagnostic.Reported

/-!
# What analyses report

An analysis decides a question if it reports nothing exactly where there is an
answer, and then gives that answer. Silence without an answer, or an answer next
to a report, would let faults through or reject what is right.

Two analyses agree if they report the same and their answers are related: then
what follows goes on from related answers.
-/
namespace ScriptFront.Reported

variable {α β γ δ : Type} {given : α → β → Prop} {given' : γ → δ → Prop}
  {P P' : β → Prop} {r r' : Reported α}

@[simp] theorem value_map (f : α → β) (x : Reported α) : (f <$> x).value = f x.value := rfl

@[simp] theorem diagnostics_map (f : α → β) (x : Reported α) :
    (f <$> x).diagnostics = x.diagnostics := List.append_nil _

/-- The analysis gives a value for which `P` holds, or reports why there is none.
What it gives stands for the value by `given`. -/
structure Decides (given : α → β → Prop) (r : Reported α) (P : β → Prop) : Prop where
  sound : r.diagnostics = [] → ∃ b, given r.value b ∧ P b
  complete : ∀ b, P b → r.diagnostics = [] ∧ given r.value b

/-- Two analyses give the same, and none of them is silent where the other is not. -/
structure Alike (r r' : Reported α) : Prop where
  value : r.value = r'.value
  clean : r.diagnostics = [] ↔ r'.diagnostics = []

namespace Decides

theorem clean_iff (h : r.Decides given P) : r.diagnostics = [] ↔ ∃ b, P b := by
  constructor
  · intro hr
    obtain ⟨b, -, hb⟩ := h.sound hr
    exact ⟨b, hb⟩
  · rintro ⟨b, hb⟩
    exact (h.complete b hb).1

theorem congr (h : r.Decides given P) (ha : r'.Alike r) : r'.Decides given P := by
  constructor
  · intro hr
    rw [ha.value]
    exact h.sound (ha.clean.mp hr)
  · intro b hb
    rw [ha.value]
    exact (h.complete b hb).imp_left ha.clean.mpr

theorem iff (h : r.Decides given P) (hP : ∀ b, P' b ↔ P b) : r.Decides given P' := by
  have heq : P' = P := funext fun b => propext (hP b)
  rwa [heq]

theorem pure {a : α} (h : ∀ b, P b ↔ given a b) (hex : ∃ b, given a b) :
    (Pure.pure a : Reported α).Decides given P := by
  constructor
  · intro _
    obtain ⟨b, hb⟩ := hex
    exact ⟨b, hb, (h b).mpr hb⟩
  · intro b hb
    exact ⟨rfl, (h b).mp hb⟩

/-- Where something is reported, it is decided that there is no answer. -/
theorem report {fault : Fault} {token : Token} {f : Unit → Reported α} (hP : ∀ b, ¬ P b) :
    (Reported.report fault token >>= f).Decides given P := by
  constructor
  · intro h
    rw [diagnostics_bind, diagnostics_report] at h
    exact absurd h (List.cons_ne_nil _ _)
  · intro b hb
    exact absurd hb (hP b)

theorem bind {f : α → Reported γ} {Q : β → δ → Prop} (hr : r.Decides given P)
    (hf : ∀ a b, given a b → P b → (f a).Decides given' (Q b)) :
    (r >>= f).Decides given' fun c => ∃ b, P b ∧ Q b c := by
  constructor
  · intro h
    rw [diagnostics_bind, List.append_eq_nil_iff] at h
    obtain ⟨b, hgiven, hb⟩ := hr.sound h.1
    obtain ⟨c, hc, hQ⟩ := (hf _ b hgiven hb).sound h.2
    exact ⟨c, hc, b, hb, hQ⟩
  · rintro c ⟨b, hb, hQ⟩
    obtain ⟨hclean, hgiven⟩ := hr.complete b hb
    have hc := (hf _ b hgiven hb).complete c hQ
    rw [diagnostics_bind, hclean, hc.1]
    exact ⟨rfl, hc.2⟩

theorem bind_pure {g : α → γ} {given' : γ → β → Prop} (hr : r.Decides given P)
    (hg : ∀ a b, given a b → given' (g a) b) :
    (r >>= fun a => Pure.pure (g a)).Decides given' P := by
  constructor
  · intro h
    rw [diagnostics_bind, diagnostics_pure, List.append_nil] at h
    obtain ⟨b, hgiven, hb⟩ := hr.sound h
    exact ⟨b, hg _ b hgiven, hb⟩
  · intro b hb
    obtain ⟨hclean, hgiven⟩ := hr.complete b hb
    rw [diagnostics_bind, diagnostics_pure, hclean]
    exact ⟨rfl, hg _ b hgiven⟩

end Decides

/-! ## Silent analyses -/

/-- What the analysis gives is as `Q` says, if it reports nothing. -/
def Leaves (r : Reported α) (Q : α → Prop) : Prop := r.diagnostics = [] → Q r.value

namespace Leaves

variable {Q Q' : α → Prop} {R : γ → Prop} {f : α → Reported γ}

theorem mono (h : r.Leaves Q) (hQ : ∀ a, Q a → Q' a) : r.Leaves Q' :=
  fun hr => hQ _ (h hr)

theorem pure {a : α} (h : Q a) : (Pure.pure a : Reported α).Leaves Q := fun _ => h

theorem bind (h : r.Leaves fun a => (f a).Leaves R) : (r >>= f).Leaves R := by
  intro hclean
  rw [diagnostics_bind, List.append_eq_nil_iff] at hclean
  exact h hclean.1 hclean.2

theorem of_bind (h : (r >>= f).Leaves R) : r.Leaves fun a => (f a).Leaves R := by
  intro hr hf
  apply h
  rw [diagnostics_bind, hr, hf, List.append_nil]

theorem seq (h : r.Leaves Q) (hf : ∀ a, Q a → (f a).Leaves R) : (r >>= f).Leaves R :=
  .bind (h.mono hf)

theorem report {fault : Fault} {token : Token} {f : Unit → Reported γ} :
    (Reported.report fault token >>= f).Leaves R := by
  intro hclean
  rw [diagnostics_bind, diagnostics_report] at hclean
  exact absurd hclean (List.cons_ne_nil _ _)

theorem congr (h : r.Leaves Q) (ha : r'.Alike r) : r'.Leaves Q := by
  intro hr
  rw [ha.value]
  exact h (ha.clean.mp hr)

end Leaves

theorem Decides.leaves (h : r.Decides given P) : r.Leaves fun a => ∃ b, given a b ∧ P b :=
  h.sound

/-! ## Analyses that agree -/

/-- Both computations report the same, and their answers are related. -/
structure Agrees (S : α → β → Prop) (x : Reported α) (y : Reported β) : Prop where
  diagnostics : x.diagnostics = y.diagnostics
  value : S x.value y.value

namespace Agrees

variable {S : α → β → Prop} {T : γ → δ → Prop} {x : Reported α} {y : Reported β}

theorem pure {a : α} {b : β} (h : S a b) : Agrees S (Pure.pure a) (Pure.pure b) := ⟨rfl, h⟩

theorem bind {f : α → Reported γ} {g : β → Reported δ} (h : Agrees S x y)
    (hf : ∀ a b, S a b → Agrees T (f a) (g b)) : Agrees T (x >>= f) (y >>= g) where
  diagnostics := congrArg₂ (· ++ ·) h.diagnostics (hf _ _ h.value).diagnostics
  value := (hf _ _ h.value).value

theorem bind_pure {f : α → γ} {g : β → δ} (h : Agrees S x y) (hf : ∀ a b, S a b → T (f a) (g b)) :
    Agrees T (x >>= fun a => Pure.pure (f a)) (y >>= fun b => Pure.pure (g b)) :=
  h.bind fun a b hab => .pure (hf a b hab)

theorem bind_eq {x y : Reported α} {f : α → Reported γ} {g : α → Reported δ} (h : y = x)
    (hf : ∀ a, Agrees T (f a) (g a)) : Agrees T (x >>= f) (y >>= g) := by
  subst h
  exact ⟨congrArg (y.diagnostics ++ ·) (hf _).diagnostics, (hf _).value⟩

theorem report_bind {fault : Fault} {token : Token} {f : Unit → Reported γ}
    {g : Unit → Reported δ} (h : Agrees T (f ()) (g ())) :
    Agrees T (report fault token >>= f) (report fault token >>= g) :=
  .bind_eq rfl fun _ => h

end Agrees

end ScriptFront.Reported
