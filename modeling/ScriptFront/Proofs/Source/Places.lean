import Mathlib.Tactic.Common
import ScriptFront.Source.Scanner

/-!
# Places in a text

The place behind a text is given by its line feeds and by the characters after the
last of them. Places follow each other in the order of the text: whoever reads on
comes to a later place. Neither number is greater than the number of characters by
more than one, so in a text that is not too long both fit into words of 32 bits.
-/
namespace ScriptFront

namespace Position

/-- The place directly behind a text that begins at the start: one line further for
each line feed, and one column further for each character after the last of them. -/
def behind (cs : List Char) : Position :=
  ⟨1 + cs.count '\n', 1 + (cs.reverse.takeWhile (· ≠ '\n')).length⟩

theorem behind_concat (cs : List Char) (c : Char) : behind (cs ++ [c]) = (behind cs).after c := by
  by_cases hc : c = '\n'
  · subst hc
    simp [behind, Nat.add_assoc]
  · rw [after_of_ne hc]
    simp [behind, hc, Nat.add_assoc]

theorem afterAll_behind (cs ds : List Char) : (behind cs).afterAll ds = behind (cs ++ ds) := by
  induction ds generalizing cs with
  | nil => simp
  | cons d ds ih =>
      rw [afterAll_cons, ← behind_concat, ih, List.append_assoc, List.singleton_append]

@[simp] theorem behind_nil : behind [] = start := rfl

theorem lt_trans {a b c : Position} (hab : a < b) (hbc : b < c) : a < c := by
  rw [lt_iff] at *
  omega

theorem lt_irrefl (a : Position) : ¬ a < a := by
  rw [lt_iff]
  omega

theorem lt_after (p : Position) (c : Char) : p < p.after c := by
  rw [lt_iff]
  by_cases hc : c = '\n'
  · simp [hc]
  · simp [after_of_ne hc]

theorem lt_afterAll (p : Position) {cs : List Char} (h : cs ≠ []) : p < p.afterAll cs := by
  induction cs generalizing p with
  | nil => exact absurd rfl h
  | cons c cs ih =>
      rw [afterAll_cons]
      by_cases hcs : cs = []
      · rw [hcs]
        exact lt_after p c
      · exact lt_trans (lt_after p c) (ih _ hcs)

theorem behind_lt_append (cs : List Char) {ds : List Char} (h : ds ≠ []) :
    behind cs < behind (cs ++ ds) := by
  rw [← afterAll_behind]
  exact lt_afterAll _ h

/-- Words of 32 bits can hold the line and the column. -/
def Fits (p : Position) : Prop := p.line < UInt32.size ∧ p.column < UInt32.size

theorem fits_behind {cs : List Char} (h : cs.length + 1 < UInt32.size) : (behind cs).Fits := by
  have hline : cs.count '\n' ≤ cs.length := List.count_le_length
  have hcolumn : (cs.reverse.takeWhile (· ≠ '\n')).length ≤ cs.reverse.length :=
    (List.takeWhile_prefix _).length_le
  rw [List.length_reverse] at hcolumn
  constructor
  · change 1 + cs.count '\n' < UInt32.size
    omega
  · change 1 + (cs.reverse.takeWhile (· ≠ '\n')).length < UInt32.size
    omega

end Position

end ScriptFront
