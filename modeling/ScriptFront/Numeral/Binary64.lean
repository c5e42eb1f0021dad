import ScriptFront.Numeral.Integer

/-!
# Double precision numbers

A number is held as its 64 bits, so that equality is equality of bits. A decimal
text is read with exact arithmetic: the value is a quotient of two naturals, and
it is rounded once, to the nearest number, a tie going to the even neighbour.

The texts that name a number are an optional sign followed by `inf`, `infinity`
or `nan` in any case, or by digits with at most one point among them and an
optional exponent.
-/
namespace ScriptFront.Numeral

/-- A double precision number by its bits: sign, eleven bits of exponent, and
fifty-two bits of fraction. -/
structure Binary64 where
  bits : UInt64
deriving DecidableEq, Repr, Inhabited

namespace Binary64

def infinityBits : Nat := 0x7FF0000000000000

def signBit : Nat := 0x8000000000000000

/-- One unit of the exponent in the bits. -/
def exponentUnit : Nat := 0x10000000000000

/-- The bits of the quiet not-a-number. -/
def nanBits : Nat := 0x7FF8000000000000

/-- The number with a sign and the bits of its magnitude. -/
def ofMagnitude (negative : Bool) (magnitude : Nat) : Binary64 :=
  ⟨UInt64.ofNat (if negative then signBit + magnitude else magnitude)⟩

/-- The whole number nearest to a quotient; a tie goes to the even one. -/
def roundedQuotient (num den : Nat) : Nat :=
  let q := num / den
  let twice := 2 * (num % den)
  if twice < den ∨ twice = den ∧ q % 2 = 0 then q else q + 1

/-- The exponent of the greatest power of two that is at most a positive
quotient. -/
def floorLog2 (num den : Nat) : Int :=
  let k : Int := (num.log2 : Int) - den.log2
  let above := if 0 ≤ k then num < den <<< k.toNat else num <<< (-k).toNat < den
  if above then k - 1 else k

/-- The bits of a positive quotient, rounded to the nearest number. The unit of
the last place is `2 ^ scale`, and counting units carries into the exponent by
itself. -/
def magnitudeOfQuotient (num den : Nat) : Nat :=
  let scale := max (-1074) (floorLog2 num den - 52)
  let units :=
    if 0 ≤ scale then roundedQuotient num (den <<< scale.toNat)
    else roundedQuotient (num <<< (-scale).toNat) den
  min ((scale + 1074).toNat * exponentUnit + units) infinityBits

/-- The bits of `digits * 10 ^ exponent`, where `digits` has `count` decimal
digits. Values far outside the range are settled without computing the power. -/
def magnitudeOfDecimal (digits count : Nat) (exponent : Int) : Nat :=
  if digits = 0 then 0
  else if 400 < exponent + count then infinityBits
  else if exponent + count < -400 then 0
  else if 0 ≤ exponent then magnitudeOfQuotient (digits * Nat.pow 10 exponent.toNat) 1
  else magnitudeOfQuotient digits (Nat.pow 10 (-exponent).toNat)

/-- The exponent that an ending such as `e-12` states; no ending states zero. -/
def exponent? : List Char → Option Int
  | [] => some 0
  | e :: cs =>
    if e = 'e' ∨ e = 'E' then
      let (negative, ds) := splitSign cs
      (natural? ds).map fun n => if negative then -(n : Int) else n
    else none

/-- The magnitude of an unsigned decimal text. -/
def unsignedMagnitude? (cs : List Char) : Option Nat :=
  let whole := cs.takeWhile Char.isDigit
  let afterWhole := cs.dropWhile Char.isDigit
  let (fraction, ending) :=
    match afterWhole with
    | '.' :: r => (r.takeWhile Char.isDigit, r.dropWhile Char.isDigit)
    | r => ([], r)
  let ds := whole ++ fraction
  if ds.isEmpty then none
  else (exponent? ending).map fun e =>
    let significant := ds.dropWhile (· = '0')
    magnitudeOfDecimal (decimal significant) significant.length (e - fraction.length)

/-- The magnitude that an unsigned text names: a word or a decimal. -/
def magnitude? (cs : List Char) : Option Nat :=
  let word := String.ofList (cs.map Char.toLower)
  if word = "inf" ∨ word = "infinity" then some infinityBits
  else if word = "nan" then some nanBits
  else unsignedMagnitude? cs

/-- The number that a text names. -/
def ofText? (cs : List Char) : Option Binary64 :=
  let (negative, unsigned) := splitSign cs
  (magnitude? unsigned).map (ofMagnitude negative)

end Binary64

end ScriptFront.Numeral
