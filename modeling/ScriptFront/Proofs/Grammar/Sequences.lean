import ScriptFront.Token.Basic

/-!
# Sequences of phrases

A grammar says which tokens spell which tree. From a rule for one item come the
rules for any number of items in a row, for items with commas between them, and
for such a list that may be missing.
-/
namespace ScriptFront

variable {α : Type} {item : α → List Token → Prop}

/-- Items in a row: `item*`. -/
inductive Repeated (item : α → List Token → Prop) : List α → List Token → Prop
  | nil : Repeated item [] []
  | cons {a : α} {as : List α} {w v : List Token} :
      item a w → Repeated item as v → Repeated item (a :: as) (w ++ v)

/-- At least one item, and commas between the items: `item (',' item)*`. -/
inductive Separated (item : α → List Token → Prop) : List α → List Token → Prop
  | single {a : α} {w : List Token} : item a w → Separated item [a] w
  | cons {a : α} {as : List α} {w v : List Token} {comma : Token} :
      item a w → comma.kind = .comma → Separated item as v →
      Separated item (a :: as) (w ++ comma :: v)

/-- Items with commas between them, or nothing: `(item (',' item)*)?`. -/
inductive Listed (item : α → List Token → Prop) : List α → List Token → Prop
  | nil : Listed item [] []
  | some {as : List α} {w : List Token} : Separated item as w → Listed item as w

/-- An item that may be missing: `item?`. -/
inductive Possibly (item : α → List Token → Prop) : Option α → List Token → Prop
  | none : Possibly item none []
  | some {a : α} {w : List Token} : item a w → Possibly item (some a) w

/-- An item behind a comma: `',' item`. -/
def AfterComma (item : α → List Token → Prop) (a : α) (w : List Token) : Prop :=
  ∃ comma v, comma.kind = .comma ∧ item a v ∧ w = comma :: v

theorem Repeated.single {a : α} {w : List Token} (h : item a w) : Repeated item [a] w := by
  simpa using Repeated.cons h .nil

theorem Repeated.exists_of_mem {as : List α} {w : List Token} (h : Repeated item as w) {a : α}
    (ha : a ∈ as) : ∃ v, item a v ∧ v ⊆ w := by
  induction h with
  | nil => cases ha
  | cons hb _ ih =>
      cases ha with
      | head => exact ⟨_, hb, List.subset_append_left _ _⟩
      | tail _ ha =>
          obtain ⟨v, hv, hsub⟩ := ih ha
          exact ⟨v, hv, List.Subset.trans hsub (List.subset_append_right _ _)⟩

theorem Separated.exists_of_mem {as : List α} {w : List Token} (h : Separated item as w) {a : α}
    (ha : a ∈ as) : ∃ v, item a v ∧ v ⊆ w := by
  induction h with
  | single hb =>
      obtain rfl := List.mem_singleton.mp ha
      exact ⟨_, hb, List.Subset.refl _⟩
  | cons hb _ _ ih =>
      cases ha with
      | head => exact ⟨_, hb, List.subset_append_left _ _⟩
      | tail _ ha =>
          obtain ⟨v, hv, hsub⟩ := ih ha
          exact ⟨v, hv, fun t ht => List.mem_append_right _ (.tail _ (hsub ht))⟩

theorem Listed.exists_of_mem {as : List α} {w : List Token} (h : Listed item as w) {a : α}
    (ha : a ∈ as) : ∃ v, item a v ∧ v ⊆ w := by
  cases h with
  | nil => cases ha
  | some h => exact h.exists_of_mem ha

theorem Repeated.length_le (hne : ∀ a w, item a w → w ≠ []) {as : List α} {w : List Token}
    (h : Repeated item as w) : as.length ≤ w.length := by
  induction h with
  | nil => exact Nat.le_refl _
  | cons ha _ ih =>
      have := List.length_pos_iff.mpr (hne _ _ ha)
      rw [List.length_cons, List.length_append]
      omega

/-- A list with commas is its first item and further items behind commas. -/
theorem Separated.of_repeated {a : α} {as : List α} {w v : List Token} (ha : item a w)
    (hr : Repeated (AfterComma item) as v) : Separated item (a :: as) (w ++ v) := by
  induction hr generalizing a w with
  | nil => simpa using Separated.single ha
  | cons hb _ ih =>
      obtain ⟨comma, u, hc, hu, rfl⟩ := hb
      exact .cons ha hc (ih hu)

theorem Separated.exists_repeated {as : List α} {w : List Token} (h : Separated item as w) :
    ∃ a as' u v, as = a :: as' ∧ w = u ++ v ∧ item a u ∧ Repeated (AfterComma item) as' v := by
  induction h with
  | single ha => exact ⟨_, _, _, _, rfl, (List.append_nil _).symm, ha, .nil⟩
  | @cons a as w v comma ha hc _ ih =>
      obtain ⟨b, bs, u, v, rfl, rfl, hb, hbs⟩ := ih
      exact ⟨a, b :: bs, w, comma :: u ++ v, rfl, rfl, ha, .cons ⟨comma, u, hc, hb, rfl⟩ hbs⟩

end ScriptFront
