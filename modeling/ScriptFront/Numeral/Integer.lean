/-!
# Whole numbers

The decimal value of a digit run, and the texts that name a signed 64-bit
integer: an optional sign and at least one ASCII digit, with a value in range.
Leading zeros are allowed and change nothing.
-/
namespace ScriptFront.Numeral

def digitValue (c : Char) : Nat := c.toNat - '0'.toNat

/-- The decimal value of a digit run, read after digits worth `high`. -/
def decimalFrom (high : Nat) (ds : List Char) : Nat :=
  ds.foldl (fun n d => 10 * n + digitValue d) high

def decimal (ds : List Char) : Nat := decimalFrom 0 ds

/-- The value of a text that consists of digits only, and of at least one. -/
def natural? (ds : List Char) : Option Nat :=
  if ds ≠ [] ∧ ds.all Char.isDigit then some (decimal ds) else none

/-- The first number above the signed 64-bit range: two to the power 63. -/
def limit : Nat := 0x8000000000000000

/-- Takes a sign off a text; the flag tells whether it is a minus sign. -/
def splitSign : List Char → Bool × List Char
  | '-' :: cs => (true, cs)
  | '+' :: cs => (false, cs)
  | cs => (false, cs)

/-- The signed 64-bit integer that a text names. -/
def integer? (cs : List Char) : Option Int :=
  let (negative, ds) := splitSign cs
  (natural? ds).bind fun n =>
    if negative then if n ≤ limit then some (-(n : Int)) else none
    else if n < limit then some (n : Int) else none

@[simp] theorem decimalFrom_nil (high : Nat) : decimalFrom high [] = high := rfl

@[simp] theorem decimalFrom_cons (high : Nat) (d : Char) (ds : List Char) :
    decimalFrom high (d :: ds) = decimalFrom (10 * high + digitValue d) ds := by
  simp only [decimalFrom, List.foldl_cons]

end ScriptFront.Numeral
