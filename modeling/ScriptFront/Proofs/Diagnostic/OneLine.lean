import ScriptFront.Proofs.Diagnostic.Stages
import ScriptFront.Proofs.Token.Numbers

/-!
# Texts in one line

A message is in one line if the texts of its fault are, because a quoted piece of the
source shows a line feed as an escape.
-/
namespace ScriptFront

def Text.OneLine (s : String) : Prop := '\n' ∉ s.toList

namespace Text

variable {s s' : String}

instance (s : String) : Decidable (OneLine s) := inferInstanceAs (Decidable (_ ∉ _))

theorem oneLine_ofList {cs : List Char} : OneLine (String.ofList cs) ↔ '\n' ∉ cs := by
  rw [OneLine, String.toList_ofList]

theorem oneLine_append : OneLine (s ++ s') ↔ OneLine s ∧ OneLine s' := by
  unfold OneLine
  rw [String.toList_append, List.mem_append, not_or]

theorem OneLine.append (h : OneLine s) (h' : OneLine s') : OneLine (s ++ s') :=
  oneLine_append.mpr ⟨h, h'⟩

theorem oneLine_toString (n : ℕ) : OneLine (toString n) := by
  intro hmem
  rw [Numeral.toList_toString] at hmem
  exact absurd ((Numeral.isDigits_toDigits n).2 _ hmem) (by decide)

theorem oneLine_position (p : Position) : OneLine p.text :=
  ((oneLine_toString _).append (by decide)).append (oneLine_toString _)

theorem digitChar_ne_newline : ∀ d < 16, Nat.digitChar d ≠ '\n' := by decide

theorem newline_notMem_hexDigits (n : ℕ) : '\n' ∉ hexDigits n := by
  suffices ∀ fuel n ds, '\n' ∉ ds → '\n' ∉ Nat.toDigitsCore 16 fuel n ds from
    this _ n [] List.not_mem_nil
  intro fuel
  induction fuel with
  | zero => exact fun _ _ h => h
  | succ fuel ih =>
      intro n ds h
      have hcons : '\n' ∉ Nat.digitChar (n % 16) :: ds := by
        rw [List.mem_cons, not_or]
        exact ⟨(digitChar_ne_newline _ (Nat.mod_lt n (by decide))).symm, h⟩
      unfold Nat.toDigitsCore
      dsimp only
      split_ifs
      · exact hcons
      · exact ih _ _ hcons

theorem newline_notMem_escaped (quote c : Char) : '\n' ∉ escaped quote c := by
  unfold escaped
  split_ifs with hn
  · decide
  · decide
  · decide
  · decide
  · rw [List.mem_cons, List.mem_singleton, not_or]
    exact ⟨by decide, fun h => hn h.symm⟩
  · rw [List.mem_singleton]
    exact fun h => hn h.symm
  · simp [newline_notMem_hexDigits]

theorem oneLine_quotedWith {quote : Char} (hquote : quote ≠ '\n') (cs : List Char) :
    OneLine (quotedWith quote cs) := by
  unfold OneLine quotedWith
  simp [newline_notMem_escaped, hquote.symm]

theorem oneLine_quoted (s : String) : OneLine (quoted s) :=
  oneLine_quotedWith (by decide) _

theorem oneLine_quotedChar (c : Char) : OneLine (quotedChar c) :=
  oneLine_quotedWith (by decide) _

end Text

namespace Fault

variable {f : Fault}

theorem oneLine_name (f : Fault) : Text.OneLine f.name := by
  cases f <;> exact Text.oneLine_ofList.mpr (by decide)

theorem oneLine_message (h : ∀ s ∈ f.texts, Text.OneLine s) : Text.OneLine f.message := by
  unfold message
  cases f <;>
    simp only [texts, List.forall_mem_cons, List.not_mem_nil] at h <;>
    simp only [Text.oneLine_append, Text.oneLine_quoted, Text.oneLine_quotedChar,
      Text.oneLine_toString, h, and_true] <;>
    (repeat' apply And.intro) <;>
    exact Text.oneLine_ofList.mpr (by decide)

theorem oneLine_tip (h : ∀ s ∈ f.texts, Text.OneLine s) : ∀ tip ∈ f.tip?, Text.OneLine tip := by
  intro tip htip
  unfold tip? at htip
  cases f with
  | missingReturnValue expected =>
      obtain rfl := Option.some.inj htip
      refine .append (.append ?_ (h expected (by simp [texts]))) ?_
      · exact Text.oneLine_ofList.mpr (by decide)
      · exact Text.oneLine_ofList.mpr (by decide)
  | _ => cases htip <;> exact Text.oneLine_ofList.mpr (by decide)

end Fault

end ScriptFront
