import Mathlib.Tactic.Common
import ScriptFront.Numeral.Binary64
import ScriptFront.Proofs.Grammar.Expr

/-!
# The tokens of numbers

A number in a source text is a run of digits, possibly with a point and further
digits behind it. Such a text always has a value, so that whatever has the kind
of a literal is a literal.
-/
namespace ScriptFront

namespace Numeral

/-- A text of digits, and of at least one. -/
def IsDigits (cs : List Char) : Prop := cs ≠ [] ∧ ∀ c ∈ cs, c.isDigit

instance (cs : List Char) : Decidable (IsDigits cs) :=
  decidable_of_iff (cs ≠ [] ∧ cs.all Char.isDigit) (by simp [IsDigits])

theorem splitSign_of_isDigit {c : Char} {cs : List Char} (h : c.isDigit) :
    splitSign (c :: cs) = (false, c :: cs) := by
  unfold splitSign
  split
  · simp_all [Char.isDigit]
  · simp_all [Char.isDigit]
  · rfl

theorem natural?_of_isDigits {cs : List Char} (h : IsDigits cs) :
    natural? cs = some (decimal cs) := by
  rw [natural?, if_pos ⟨h.1, List.all_eq_true.mpr h.2⟩]

theorem integer?_of_isDigits {cs : List Char} (h : IsDigits cs) (hl : decimal cs < limit) :
    integer? cs = some (decimal cs : Int) := by
  obtain ⟨c, cs, rfl⟩ := List.exists_cons_of_ne_nil h.1
  simp [integer?, splitSign_of_isDigit (h.2 c (by simp)), natural?_of_isDigits h, hl]

theorem takeWhile_isDigit {cs r : List Char} (h : IsDigits cs)
    (hr : ∀ c ∈ r.head?, ¬ c.isDigit) :
    (cs ++ r).takeWhile Char.isDigit = cs ∧ (cs ++ r).dropWhile Char.isDigit = r := by
  rw [List.takeWhile_append_of_pos h.2, List.dropWhile_append_of_pos h.2]
  cases r with
  | nil => simp
  | cons c r =>
      have hc : ¬ c.isDigit := hr c (by simp)
      simp [hc]

/-! The decimal digits of a natural number are its text, and have it as their value. -/

theorem toList_toString (n : ℕ) : (toString n).toList = Nat.toDigits 10 n := by
  change (Nat.repr n).toList = _
  rw [Nat.repr_eq_ofList_toDigits, String.toList_ofList]

theorem isDigits_toDigits (n : ℕ) : IsDigits (Nat.toDigits 10 n) :=
  ⟨Nat.toDigits_ne_nil, fun _ hc => Nat.isDigit_of_mem_toDigits (by decide) (by decide) hc⟩

theorem decimal_toDigits (n : ℕ) : decimal (Nat.toDigits 10 n) = n :=
  Nat.ofDigitChars_toDigits (by decide) (by decide)

namespace Binary64

theorem isSome_unsignedMagnitude? {whole fraction : List Char} (hw : IsDigits whole)
    (hf : IsDigits fraction) : (unsignedMagnitude? (whole ++ '.' :: fraction)).isSome := by
  have hwhole := takeWhile_isDigit (r := '.' :: fraction) hw (by simp [Char.isDigit])
  have hfraction := takeWhile_isDigit (r := []) hf (by simp)
  rw [List.append_nil] at hfraction
  have hds : (whole ++ fraction).isEmpty = false := by simp [hw.1]
  simp [unsignedMagnitude?, hwhole.1, hwhole.2, hfraction.1, hfraction.2, hds, exponent?]

theorem isSome_ofText? {whole fraction : List Char} (hw : IsDigits whole)
    (hf : IsDigits fraction) : (ofText? (whole ++ '.' :: fraction)).isSome := by
  have hsign : splitSign (whole ++ '.' :: fraction) = (false, whole ++ '.' :: fraction) := by
    obtain ⟨c, cs, rfl⟩ := List.exists_cons_of_ne_nil hw.1
    exact splitSign_of_isDigit (hw.2 c (by simp))
  rw [ofText?, hsign, Option.isSome_map, magnitude?]
  split_ifs
  · rfl
  · rfl
  · exact isSome_unsignedMagnitude? hw hf

end Binary64

end Numeral

/-- If the token is a number, then its text is that of a number in a source: an
integer in range, or digits on both sides of a point. -/
structure Token.Numeric (t : Token) : Prop where
  int : t.kind = .int →
    Numeral.IsDigits t.text.toList ∧ Numeral.decimal t.text.toList < Numeral.limit
  float : t.kind = .float → ∃ whole fraction, Numeral.IsDigits whole ∧
    Numeral.IsDigits fraction ∧ t.text.toList = whole ++ '.' :: fraction

theorem Token.numeric_of_kind {t : Token} (hi : t.kind ≠ .int) (hf : t.kind ≠ .float) :
    t.Numeric :=
  ⟨fun h => absurd h hi, fun h => absurd h hf⟩

/-- A token that has the kind of a literal. -/
def TokenKind.IsLiteral (k : TokenKind) : Prop := k ∈ [.int, .float, .bool, .string]

theorem Token.Numeric.literal {t : Token} (h : t.Numeric) (hk : t.kind.IsLiteral) :
    ∃ value, Literal.SpelledBy value t := by
  simp only [TokenKind.IsLiteral, List.mem_cons, List.not_mem_nil, or_false] at hk
  rcases hk with hk | hk | hk | hk
  · obtain ⟨hd, hl⟩ := h.int hk
    exact ⟨_, .int hk (Numeral.integer?_of_isDigits hd hl)⟩
  · obtain ⟨whole, fraction, hw, hf, ht⟩ := h.float hk
    obtain ⟨x, hx⟩ := Option.isSome_iff_exists.mp (Numeral.Binary64.isSome_ofText? hw hf)
    exact ⟨_, .float hk (by rw [ht, hx])⟩
  · exact ⟨_, .bool hk⟩
  · exact ⟨_, .string hk⟩

end ScriptFront
