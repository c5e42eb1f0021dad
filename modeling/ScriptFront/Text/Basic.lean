import ScriptFront.Text.Shown

/-!
# Texts

The property `White_Space` of the character standard holds of the ASCII blanks,
the next-line control, and the separators.

Listings and the lines under a diagnostic have fields of a fixed width. Widths
count characters, and a text that is too wide is left as it is. A field is
narrower than `2 ^ 16` characters; nothing is said about greater widths.

Messages quote a piece of source text between quotes, with a backslash before a
quote of the same kind and before a backslash, short escapes for the four usual
controls, and the code point in hexadecimal for every other character that is
not shown as itself.
-/
namespace ScriptFront.Text

/-! ## White space -/

/-- The code points with the property, as closed ranges. -/
def whiteSpaceRanges : List (Nat × Nat) :=
  [(0x0009, 0x000D), (0x0020, 0x0020), (0x0085, 0x0085), (0x00A0, 0x00A0),
   (0x1680, 0x1680), (0x2000, 0x200A), (0x2028, 0x2029), (0x202F, 0x202F),
   (0x205F, 0x205F), (0x3000, 0x3000)]

/-- The character has the property `White_Space`. -/
def isWhiteSpace (c : Char) : Bool :=
  whiteSpaceRanges.any fun r => r.1 ≤ c.toNat && c.toNat ≤ r.2

/-- Every blank that the core library knows is one here too. -/
theorem isWhiteSpace_of_isWhitespace {c : Char} (h : c.isWhitespace) : isWhiteSpace c := by
  simp only [Char.isWhitespace, Bool.or_eq_true, decide_eq_true_eq] at h
  rcases h with ((rfl | rfl) | rfl) | rfl <;> decide

/-! ## Fields -/

def padRight (width : Nat) (mark : Char) (s : String) : String :=
  s ++ String.ofList (List.replicate (width - s.length) mark)

/-- The text behind as many marks as a field of the width leaves room for. The width is below
`2 ^ 16`. -/
def padLeft (width : Nat) (mark : Char) (s : String) : String :=
  String.ofList (List.replicate (width - s.length) mark) ++ s

def truncated (width : Nat) (s : String) : String :=
  String.ofList (s.toList.take width)

/-! ## Quoted text -/

/-- The hexadecimal digits of a number, in lower case and without padding. -/
def hexDigits (n : Nat) : List Char :=
  Nat.toDigits 16 n

/-- A character as it stands between two marks `quote`. -/
def escaped (quote c : Char) : List Char :=
  if c = '\n' then ['\\', 'n']
  else if c = '\r' then ['\\', 'r']
  else if c = '\t' then ['\\', 't']
  else if c = '\x00' then ['\\', '0']
  else if c = '\\' ∨ c = quote then ['\\', c]
  else if isShown c then [c]
  else '\\' :: 'u' :: '\x7b' :: hexDigits c.toNat ++ ['\x7d']

/-- A text between two marks. -/
def quotedWith (quote : Char) (cs : List Char) : String :=
  String.ofList (quote :: cs.flatMap (escaped quote) ++ [quote])

/-- A string between double quotes. -/
def quoted (s : String) : String := quotedWith '"' s.toList

/-- A character between single quotes. -/
def quotedChar (c : Char) : String := quotedWith '\'' [c]

end ScriptFront.Text
