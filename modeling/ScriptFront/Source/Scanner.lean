import ScriptFront.Source.Position

/-!
# Reading a source text

A line ends before a line feed, and a carriage return directly before that line
feed belongs to the ending and not to the line. Text after the last line feed
is a line only if there is some, and there a carriage return is kept.

A scanner holds the text that is still to be read and the position of its first
character. It moves by characters; a move given in bytes stops at the character
boundary it reaches and never leaves the text.
-/
namespace ScriptFront.Source

/-! ## Lines -/

/-- The line without a carriage return at its end. -/
def dropReturn : List Char → List Char
  | [] => []
  | ['\r'] => []
  | c :: cs => c :: dropReturn cs

/-- The lines of a text, read after the characters `pending` of the current
line, which are held in reverse. -/
def linesFrom (pending : List Char) : List Char → List (List Char)
  | [] => if pending.isEmpty then [] else [pending.reverse]
  | '\n' :: cs => dropReturn pending.reverse :: linesFrom [] cs
  | c :: cs => linesFrom (c :: pending) cs

/-- The lines of a text, without their endings. -/
def lines (source : String) : List String :=
  (linesFrom [] source.toList).map String.ofList

/-- The line with a number counted from one; number zero is read as one, and a
line beyond the end is empty. -/
def line (source : String) (number : Nat) : String :=
  ((lines source)[number - 1]?).getD ""

/-! ## Scanners -/

/-- The unread text and its place. -/
structure Scanner where
  rest : List Char
  position : Position
deriving DecidableEq, Repr

namespace Scanner

def ofSource (source : String) : Scanner :=
  ⟨source.toList, Position.start⟩

/-- Reads `n` characters, or all of them if fewer are left. -/
def advance (s : Scanner) (n : Nat) : Scanner :=
  ⟨s.rest.drop n, s.position.afterAll (s.rest.take n)⟩

/-- The number of bytes that a text takes. -/
def byteLength : List Char → Nat
  | [] => 0
  | c :: cs => c.utf8Size + byteLength cs

/-- How many whole characters the first `bytes` bytes of the text hold. -/
def charsIn (bytes : Nat) : List Char → Nat
  | [] => 0
  | c :: cs => if c.utf8Size ≤ bytes then 1 + charsIn (bytes - c.utf8Size) cs else 0

/-- Reads the characters that lie in the next `bytes` bytes. -/
def advanceBytes (s : Scanner) (bytes : Nat) : Scanner :=
  s.advance (charsIn bytes s.rest)

def peek? (s : Scanner) : Option Char := s.rest.head?

def remainder (s : Scanner) : String := String.ofList s.rest

def atEnd (s : Scanner) : Bool := s.rest.isEmpty

@[simp] theorem advance_zero (s : Scanner) : s.advance 0 = s := by
  simp [advance]

/-- No character fits into no bytes. -/
@[simp] theorem charsIn_zero (cs : List Char) : charsIn 0 cs = 0 := by
  cases cs with
  | nil => rfl
  | cons c cs =>
    have h := c.utf8Size_pos
    rw [charsIn, if_neg (by omega)]

theorem charsIn_byteLength (cs ds : List Char) :
    charsIn (byteLength cs) (cs ++ ds) = cs.length := by
  induction cs with
  | nil => exact charsIn_zero ds
  | cons c cs ih =>
    rw [byteLength, List.cons_append, charsIn, if_pos (Nat.le_add_right _ _),
      Nat.add_sub_cancel_left, ih, List.length_cons, Nat.add_comm]

/-- A move by the bytes of a text is a move over that text. -/
theorem advanceBytes_byteLength (cs ds : List Char) (p : Position) :
    advanceBytes ⟨cs ++ ds, p⟩ (byteLength cs) = ⟨ds, p.afterAll cs⟩ := by
  simp [advanceBytes, advance, charsIn_byteLength]

theorem advance_add (s : Scanner) (m n : Nat) :
    s.advance (m + n) = (s.advance m).advance n := by
  simp [advance, List.take_add, Position.afterAll_append]

end Scanner

end ScriptFront.Source
