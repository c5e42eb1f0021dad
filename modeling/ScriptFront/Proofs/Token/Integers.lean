import Mathlib
import ScriptFront.Proofs.Program.Literals
import ScriptFront.Proofs.Token.Spelling

/-!
# Whole numbers

A run of digits that no word and no fraction follows is an integer of a source, and its
decimal value is exact. If the value is below two to the power 63, the lexer leaves one
token with these digits, and the parser makes a literal of this value of it; otherwise
the run is a fault, and it is placed at the first digit.
-/
namespace ScriptFront

variable {digits rest : List Char} {place : Position}

/-! ## The value of digits -/

namespace Numeral

theorem decimalFrom_eq (high : ℕ) (ds : List Char) :
    decimalFrom high ds = Nat.ofDigits 10 (ds.reverse.map digitValue) + 10 ^ ds.length * high := by
  induction ds generalizing high with
  | nil => simp
  | cons d ds ih =>
      rw [decimalFrom_cons, ih, List.reverse_cons, List.map_append, Nat.ofDigits_append,
        List.length_map, List.length_reverse, List.map_singleton, Nat.ofDigits_singleton,
        List.length_cons]
      ring

/-- The decimal value of digits is the sum of their values, each times its power of ten. -/
theorem decimal_eq_ofDigits (ds : List Char) :
    decimal ds = Nat.ofDigits 10 (ds.reverse.map digitValue) := by
  rw [decimal, decimalFrom_eq, Nat.mul_zero, Nat.add_zero]

theorem eq_decimal_of_integer? {n : ℤ} (hd : IsDigits digits) (h : integer? digits = some n) :
    n = decimal digits := by
  obtain ⟨c, cs, rfl⟩ := List.exists_cons_of_ne_nil hd.1
  rw [integer?, splitSign_of_isDigit (hd.2 c List.mem_cons_self)] at h
  simp only [natural?_of_isDigits hd, Option.bind_some, Bool.false_eq_true, if_false] at h
  split_ifs at h
  exact (Option.some.inj h).symm

/-- No number goes on with the text: no digit begins it, no point with a digit behind it,
and no character of a word. -/
structure EndsBefore (rest : List Char) : Prop where
  digit : ∀ c ∈ rest.head?, ¬ c.isDigit
  point {c : Char} {after : List Char} : rest = '.' :: c :: after → ¬ c.isDigit
  word : ∀ c ∈ rest.head?, ¬ Pattern.isWordStart c

end Numeral

/-! ## Runs of digits -/

namespace Pattern

theorem fractionLength_eq_zero (h : Numeral.EndsBefore rest) : fractionLength rest = 0 := by
  rcases fractionLength_spec rest with ⟨fraction, after, rfl, hfraction, -⟩ | hzero
  · obtain ⟨c, cs, rfl⟩ := List.exists_cons_of_ne_nil hfraction.1
    exact absurd (hfraction.2 c List.mem_cons_self) (h.point rfl)
  · exact hzero

/-- Where no number goes on, a run of digits is taken as a whole. -/
theorem first?_digits (hd : Numeral.IsDigits digits) (h : Numeral.EndsBefore rest) :
    first? (digits ++ rest) = some (number, digits.length) := by
  have hlength : number.length? (digits ++ rest) = some digits.length := by
    rw [length?, runLength?_run hd.1 hd.2 h.digit, Option.map_some, List.drop_left,
      fractionLength_eq_zero h, Nat.add_zero]
  obtain ⟨p, n, hfirst, -⟩ := exists_first? (p := number) (by decide) hlength
  obtain ⟨hp, hn⟩ := exists_of_first? hfirst
  obtain ⟨w, rest', heq, -, hw⟩ := exists_of_length? hn
  have hmatches : Matches number digits rest := .integer hd
  have hopener : Opener.digit = p.opener := hmatches.opener_eq hw (by decide) hp heq
  obtain rfl : p = number := eq_of_opener_eq hopener.symm (by rw [← hopener]; decide)
  obtain rfl : digits.length = n := Option.some.inj (hlength.symm.trans hn)
  exact hfirst

theorem numberToken_digits (hd : Numeral.IsDigits digits) (h : Numeral.EndsBefore rest) :
    numberToken digits rest place =
      if Numeral.decimal digits < Numeral.limit then .ok ⟨.int, String.ofList digits, place⟩
      else .error ⟨.numberParseError (String.ofList digits), place⟩ := by
  have hsuffix : rest.head?.filter isWordStart = none := Option.filter_eq_none_iff.mpr h.word
  unfold numberToken
  rw [hsuffix]
  simp only [Word.not_contains_point hd, Bool.false_eq_true, if_false]

end Pattern

namespace Token

open Source (Scanner)

section
variable (hd : Numeral.IsDigits digits) (h : Numeral.EndsBefore rest)
include hd h

theorem readsUpTo_digits (hlt : Numeral.decimal digits < Numeral.limit) :
    ReadsUpTo ⟨digits ++ rest, place⟩ [⟨.int, String.ofList digits, place⟩]
      ⟨rest, place.afterAll digits⟩ := by
  have hread : Pattern.number.read digits rest place =
      .ok (some ⟨.int, String.ofList digits, place⟩) := by
    rw [Pattern.read_number_eq_some_iff, Pattern.numberToken_digits hd h, if_pos hlt]
  exact .token hd.1 (Pattern.first?_digits hd h) hread .here

theorem stuck_digits (hle : Numeral.limit ≤ Numeral.decimal digits) :
    Stuck ⟨digits ++ rest, place⟩ ⟨.numberParseError (String.ofList digits), place⟩ := by
  have hread : Pattern.number.read digits rest place =
      .error ⟨.numberParseError (String.ofList digits), place⟩ := by
    rw [Pattern.read_number_eq_error_iff, Pattern.numberToken_digits hd h,
      if_neg (Nat.not_lt.mpr hle)]
  exact .lexeme hd.1 (Pattern.first?_digits hd h) hread

end

/-! ## The literal of a token -/

/-- Whenever a program or an expression is parsed, each literal that is made of the token is
this number. -/
def Denotes (t : Token) (value : ℤ) : Prop :=
  ∀ (body : List Token) (last : Token), last.kind = .endOfInput →
    (∀ u ∈ body, u.kind ≠ .endOfInput) → ∀ (literal : Literal) (type? : Option TypeId),
      (∀ p, Program.ofTokens (body ++ [last]) = .ok p →
        .literal literal t type? ∈ p.parts → literal = .int value) ∧
      (∀ e, Expr.ofTokens (body ++ [last]) = .ok e →
        .literal literal t type? ∈ e.parts → literal = .int value)

theorem eq_int_of_spelledBy {literal : Literal} (hd : Numeral.IsDigits digits)
    (h : literal.SpelledBy ⟨.int, String.ofList digits, place⟩) :
    literal = .int (Numeral.decimal digits) := by
  cases h with
  | int _ hn =>
      rw [String.toList_ofList] at hn
      rw [Numeral.eq_decimal_of_integer? hd hn]
  | float hk | bool hk | string hk => cases hk

theorem denotes_digits (hd : Numeral.IsDigits digits) :
    Denotes ⟨.int, String.ofList digits, place⟩ (Numeral.decimal digits) :=
  fun _ _ hlast hbody _ _ =>
    ⟨fun _ hp hmem => eq_int_of_spelledBy hd (Program.literal_of_ofTokens hlast hbody hp hmem),
      fun _ he hmem => eq_int_of_spelledBy hd (Expr.literal_of_ofTokens hlast hbody he hmem)⟩

/-- Let a run of digits begin a lexeme, and let no number go on behind it. If its decimal value
is below two to the power 63, the lexer leaves one token with these digits and goes on behind
them, and whatever literal the parser makes of this token has exactly this value. Otherwise the
source has a fault, which is placed at the first of the digits. -/
theorem integer_exact {source : String} {before : List Token}
    (hreads : ReadsUpTo (Scanner.ofSource source) before ⟨digits ++ rest, place⟩)
    (hdigits : Numeral.IsDigits digits) (hends : Numeral.EndsBefore rest) :
    let value : ℕ := Nat.ofDigits 10 (digits.reverse.map Numeral.digitValue)
    let token : Token := ⟨.int, String.ofList digits, place⟩
    (∃ front, source.toList = front ++ (digits ++ rest) ∧ place = Position.behind front) ∧
      (value < 2 ^ 63 →
        ReadsUpTo (Scanner.ofSource source) (before ++ [token]) ⟨rest, place.afterAll digits⟩ ∧
          ∀ tokens, ofSource source = .ok tokens → ∃ after, tokens = before ++ token :: after) ∧
      (2 ^ 63 ≤ value →
        ofSource source = .error ⟨.numberParseError (String.ofList digits), place⟩) ∧
      token.Denotes value := by
  intro value token
  have hvalue : Numeral.decimal digits = value := Numeral.decimal_eq_ofDigits digits
  have hlimit : Numeral.limit = 2 ^ 63 := rfl
  refine ⟨?_, ?_, ?_, hvalue ▸ denotes_digits hdigits⟩
  · obtain ⟨front, htext, hplace⟩ := hreads.exists_lexemes
    exact ⟨front, htext, hplace.trans (Position.afterAll_behind [] front)⟩
  · intro hlt
    have hrun := hreads.trans (readsUpTo_digits hdigits hends (hlimit ▸ hvalue ▸ hlt))
    refine ⟨hrun, fun tokens hok => ?_⟩
    rw [ofSource, hrun.scan_eq] at hok
    cases hafter : scan ⟨rest, place.afterAll digits⟩ with
    | ok after =>
        rw [hafter] at hok
        exact ⟨after, (Except.ok.inj hok).symm.trans (List.append_assoc ..)⟩
    | error d =>
        rw [hafter] at hok
        cases hok
  · intro hle
    rw [ofSource, hreads.scan_eq_error_iff]
    exact (stuck_digits hdigits hends (hlimit ▸ hvalue ▸ hle)).scan_eq

/-- Zeros in front change nothing, also where the value is the last one in range. -/
theorem integer_exact_of_zeros :
    let source := "-(0009223372036854775807)"
    let digits := ['0', '0', '0', '9', '2', '2', '3', '3', '7', '2', '0', '3', '6', '8', '5', '4',
      '7', '7', '5', '8', '0', '7']
    let dash : Token := ⟨.dash, "-", ⟨1, 1⟩⟩
    let opening : Token := ⟨.openParen, "(", ⟨1, 2⟩⟩
    let token : Token := ⟨.int, "0009223372036854775807", ⟨1, 3⟩⟩
    let closing : Token := ⟨.closeParen, ")", ⟨1, 25⟩⟩
    let literal : Expr := .literal (.int 9223372036854775807) token none
    ReadsUpTo (Scanner.ofSource source) [dash, opening] ⟨digits ++ [')'], ⟨1, 3⟩⟩ ∧
      Numeral.IsDigits digits ∧ Numeral.EndsBefore [')'] ∧
      ReadsUpTo (Scanner.ofSource source) [dash, opening, token] ⟨[')'], ⟨1, 25⟩⟩ ∧
      token.Denotes 9223372036854775807 ∧
      Expr.ofTokens [dash, opening, token, closing, endOfInput ⟨1, 26⟩] =
        .ok (.unary .neg literal dash none) := by
  intro source digits dash opening token closing literal
  have hreads : ReadsUpTo (Scanner.ofSource source) [dash, opening] ⟨digits ++ [')'], ⟨1, 3⟩⟩ := by
    have htext : source.toList = ['-'] ++ (['('] ++ (digits ++ [')'])) := by decide +kernel
    rw [Scanner.ofSource, htext]
    exact .token (p := .mark "-" .dash) (List.cons_ne_nil _ _) (by decide +kernel) rfl
      (.token (p := .mark "(" .openParen) (List.cons_ne_nil _ _) (by decide +kernel) rfl .here)
  have hall : digits.all Char.isDigit := by decide +kernel
  have hdigits : Numeral.IsDigits digits := ⟨List.cons_ne_nil _ _, List.all_eq_true.mp hall⟩
  have hends : Numeral.EndsBefore [')'] :=
    ⟨by rintro _ ⟨⟩; decide, nofun, by rintro _ ⟨⟩; decide⟩
  obtain ⟨-, hbelow, -, hdenotes⟩ := integer_exact hreads hdigits hends
  have hvalue : Nat.ofDigits 10 (digits.reverse.map Numeral.digitValue) = 9223372036854775807 := by
    decide +kernel
  have htext : String.ofList digits = "0009223372036854775807" := by decide +kernel
  rw [hvalue, htext] at hdenotes hbelow
  exact ⟨hreads, hdigits, hends, (hbelow (by decide)).1, hdenotes, by cbv⟩

end Token

end ScriptFront
