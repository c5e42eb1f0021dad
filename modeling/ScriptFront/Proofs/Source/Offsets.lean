import Mathlib
import ScriptFront.Proofs.Source.Lines

/-!
# Reading by offsets

A scanner holds the text that is left and moves its position character by character. The same
place can be kept by three numbers: the bytes in front of it, the number of its line, and the
bytes in front of that line. A move looks for line feeds in the part of the text that it goes
over, and the column is counted only when it is asked for.

Both ways to keep the place agree after any moves that end between characters, and what they
have depends on the text that was read alone, not on the moves that it was read in.
-/
namespace ScriptFront.Source

/-! ## Bytes and characters -/

namespace Scanner

theorem byteLength_append (cs ds : List Char) :
    byteLength (cs ++ ds) = byteLength cs + byteLength ds := by
  induction cs with
  | nil => simp [byteLength]
  | cons c cs ih => rw [List.cons_append, byteLength, byteLength, ih, Nat.add_assoc]

theorem byteLength_toList (source : String) : byteLength source.toList = source.utf8ByteSize := by
  have hlength (cs : List Char) : byteLength cs = String.utf8Len cs := by
    induction cs with
    | nil => rfl
    | cons c cs ih => rw [byteLength, ih, String.utf8Len_cons, Nat.add_comm]
  rw [hlength, ← String.utf8ByteSize_ofList, String.ofList_toList]

theorem eq_nil_of_byteLength {cs : List Char} (h : byteLength cs = 0) : cs = [] := by
  cases cs with
  | nil => rfl
  | cons c cs =>
      have := c.utf8Size_pos
      rw [byteLength] at h
      omega

/-- A move that ends between two characters goes over those that take as many bytes as it
asks for, or as there are. -/
theorem charsIn_of_byteLength {bytes : ℕ} {w rest : List Char}
    (h : byteLength w = min bytes (byteLength (w ++ rest))) :
    charsIn bytes (w ++ rest) = w.length := by
  induction w generalizing bytes with
  | nil =>
      rw [byteLength, List.nil_append] at h
      by_cases hbytes : bytes = 0
      · rw [hbytes, charsIn_zero, List.length_nil]
      · have hrest : rest = [] := eq_nil_of_byteLength (by omega)
        rw [hrest]
        rfl
  | cons c w ih =>
      rw [List.cons_append, byteLength, byteLength] at h
      have := c.utf8Size_pos
      have hw : byteLength w = min (bytes - c.utf8Size) (byteLength (w ++ rest)) := by omega
      rw [List.cons_append, charsIn, if_pos (by omega), ih hw, List.length_cons, Nat.add_comm]

/-- Of two ways to cut a text, the one with fewer bytes in front cuts earlier. -/
theorem exists_between {cs ds cs' ds' : List Char} (h : cs ++ ds = cs' ++ ds')
    (hle : byteLength cs ≤ byteLength cs') : ∃ w, cs' = cs ++ w ∧ ds = w ++ ds' := by
  rcases List.append_eq_append_iff.mp h with ⟨w, hw, hds⟩ | ⟨w, hw, hds⟩
  · exact ⟨w, hw, hds⟩
  · rw [hw, byteLength_append] at hle
    obtain rfl : w = [] := eq_nil_of_byteLength (by omega)
    exact ⟨[], by simpa using hw.symm, by simpa using hds.symm⟩

theorem advanceBytes_of_byteLength {bytes : ℕ} {w rest : List Char} (p : Position)
    (h : byteLength w = min bytes (byteLength (w ++ rest))) :
    advanceBytes ⟨w ++ rest, p⟩ bytes = ⟨rest, p.afterAll w⟩ := by
  simp [advanceBytes, advance, charsIn_of_byteLength h]

end Scanner

open Scanner (byteLength charsIn)

/-! ## Places kept by offsets -/

/-- A place in a text: the bytes in front of it, the number of its line, and the bytes in
front of that line. -/
structure Offsets where
  place : ℕ
  line : ℕ
  lineStart : ℕ
deriving DecidableEq, Repr

/-- The characters between two offsets. -/
def slice (text : List Char) (i j : ℕ) : List Char :=
  let behind := text.drop (charsIn i text)
  behind.take (charsIn (j - i) behind)

/-- Characters with the bytes in front of each. -/
def located (offset : ℕ) : List Char → List (ℕ × Char)
  | [] => []
  | c :: cs => (offset, c) :: located (offset + c.utf8Size) cs

/-- The part of a text up to its last line feed. -/
def closedLines (cs : List Char) : List Char := (cs.reverse.dropWhile (· ≠ '\n')).reverse

theorem closedLines_append_lastLine (cs : List Char) : closedLines cs ++ lastLine cs = cs := by
  rw [closedLines, lastLine, ← List.reverse_append, List.takeWhile_append_dropWhile,
    List.reverse_reverse]

namespace Offsets

def start : Offsets := ⟨0, 1, 0⟩

/-- Begins a line behind a line feed that lies so many bytes behind the place. -/
def pass (o : Offsets) : ℕ × Char → Offsets
  | (offset, c) =>
    if c = '\n' then { o with line := o.line + 1, lineStart := o.place + offset + 1 } else o

/-- Moves by so many bytes, or to the end of the text if fewer are left. -/
def advance (text : List Char) (o : Offsets) (bytes : ℕ) : Offsets :=
  let stop := min (o.place + bytes) (byteLength text)
  { (located 0 (slice text o.place stop)).foldl pass o with place := stop }

/-- The position: the column counts the characters from the beginning of the line. -/
def position (text : List Char) (o : Offsets) : Position :=
  ⟨o.line, (slice text o.lineStart o.place).length + 1⟩

/-- The place directly behind a text. -/
def behind (cs : List Char) : Offsets :=
  ⟨byteLength cs, 1 + cs.count '\n', byteLength (closedLines cs)⟩

end Offsets

theorem slice_append (u w v : List Char) :
    slice (u ++ (w ++ v)) (byteLength u) (byteLength (u ++ w)) = w := by
  rw [slice, Scanner.charsIn_byteLength, List.drop_left, Scanner.byteLength_append,
    Nat.add_sub_cancel_left, Scanner.charsIn_byteLength, List.take_left]

namespace Offsets

@[simp] theorem place_behind (cs : List Char) : (behind cs).place = byteLength cs := rfl

/-- Passing one more character. The place stays where the move began. -/
theorem pass_behind (front u : List Char) (c : Char) :
    pass { behind (front ++ u) with place := byteLength front } (byteLength u, c) =
      { behind (front ++ (u ++ [c])) with place := byteLength front } := by
  by_cases hc : c = '\n'
  · subst hc
    have hone : byteLength ['\n'] = 1 := rfl
    simp [pass, behind, closedLines, Scanner.byteLength_append, hone, Nat.add_assoc]
  · simp [pass, behind, closedLines, hc]

theorem foldl_pass (front u w : List Char) :
    (located (byteLength u) w).foldl pass { behind (front ++ u) with place := byteLength front } =
      { behind (front ++ (u ++ w)) with place := byteLength front } := by
  induction w generalizing u with
  | nil => rw [List.append_nil, located, List.foldl_nil]
  | cons c w ih =>
      have hoffset : byteLength u + c.utf8Size = byteLength (u ++ [c]) := by
        rw [Scanner.byteLength_append, byteLength, byteLength, Nat.add_zero]
      rw [located, List.foldl_cons, pass_behind, hoffset, ih, List.append_assoc u,
        List.singleton_append]

theorem advance_behind {bytes : ℕ} {front w rest : List Char}
    (h : byteLength w = min bytes (byteLength (w ++ rest))) :
    (behind front).advance (front ++ (w ++ rest)) bytes = behind (front ++ w) := by
  have hstop : min (byteLength front + bytes) (byteLength (front ++ (w ++ rest))) =
      byteLength (front ++ w) := by
    rw [Scanner.byteLength_append front, Scanner.byteLength_append front]
    omega
  have hpass : (located 0 w).foldl pass (behind front) =
      { behind (front ++ w) with place := byteLength front } := by
    have h := foldl_pass front [] w
    rwa [List.append_nil, List.nil_append] at h
  simp only [advance, place_behind, hstop, slice_append, hpass]
  rfl

/-- The text is cut at its last line feed, and the column counts what is behind. -/
theorem position_behind (front rest : List Char) :
    (behind front).position (front ++ rest) = Position.behind front := by
  have hslice := slice_append (closedLines front) (lastLine front) rest
  rw [← List.append_assoc, closedLines_append_lastLine] at hslice
  rw [position, place_behind, behind, Position.behind, hslice, lastLine, List.length_reverse,
    Nat.add_comm (List.length _)]

end Offsets

/-! ## Moves one after another -/

/-- The scanner after moves of so many bytes each. -/
def Scanner.advanceAll (s : Scanner) (moves : List ℕ) : Scanner := moves.foldl advanceBytes s

def Offsets.advanceAll (text : List Char) (o : Offsets) (moves : List ℕ) : Offsets :=
  moves.foldl (advance text) o

theorem Scanner.advanceAll_concat (s : Scanner) (moves : List ℕ) (bytes : ℕ) :
    s.advanceAll (moves ++ [bytes]) = (s.advanceAll moves).advanceBytes bytes :=
  List.foldl_append

theorem Offsets.advanceAll_concat (text : List Char) (o : Offsets) (moves : List ℕ) (bytes : ℕ) :
    o.advanceAll text (moves ++ [bytes]) = (o.advanceAll text moves).advance text bytes :=
  List.foldl_append

/-- How many bytes moves go over: as many as they ask for, or as there are. -/
def reach (source : String) (moves : List ℕ) : ℕ := min moves.sum source.utf8ByteSize

/-- Each move ends between two characters, or at an end of the text. -/
def StopsBetween (source : String) (moves : List ℕ) : Prop :=
  ∀ done ∈ moves.inits, String.Pos.Raw.IsValid source ⟨reach source done⟩

instance (source : String) (moves : List ℕ) : Decidable (StopsBetween source moves) :=
  inferInstanceAs (Decidable (∀ done ∈ moves.inits, _))

/-- What was read after moves: it takes as many bytes as they go over, and both the scanner
and the offsets stand directly behind it. -/
structure ReadBy (source : String) (moves : List ℕ) (consumed rest : String) : Prop where
  source_eq : source = consumed ++ rest
  size : consumed.utf8ByteSize = reach source moves
  scanner : (Scanner.ofSource source).advanceAll moves =
    ⟨rest.toList, Position.behind consumed.toList⟩
  offsets : Offsets.start.advanceAll source.toList moves = Offsets.behind consumed.toList

theorem reach_concat (source : String) (moves : List ℕ) (bytes : ℕ) :
    reach source (moves ++ [bytes]) = min (reach source moves + bytes) source.utf8ByteSize := by
  rw [reach, reach, List.sum_append, List.sum_singleton]
  omega

theorem StopsBetween.of_concat {source : String} {moves : List ℕ} {bytes : ℕ}
    (h : StopsBetween source (moves ++ [bytes])) : StopsBetween source moves := by
  intro done hdone
  rw [List.mem_inits] at hdone
  exact h done ((List.mem_inits _ _).mpr (hdone.trans (List.prefix_append _ _)))

/-- Between two stops there are whole characters: as many bytes of them as a move asks for,
or as there are. -/
theorem exists_stop {consumed rest : String} {bytes : ℕ}
    (hstop : String.Pos.Raw.IsValid (consumed ++ rest)
      ⟨min (consumed.utf8ByteSize + bytes) (consumed ++ rest).utf8ByteSize⟩) :
    ∃ w rest', rest = w ++ rest' ∧ w.utf8ByteSize = min bytes rest.utf8ByteSize := by
  obtain ⟨front, rest', htext, hplace⟩ := String.Pos.Raw.isValid_iff_exists_append.mp hstop
  have hsize : min (consumed.utf8ByteSize + bytes) (consumed ++ rest).utf8ByteSize =
      front.utf8ByteSize := congrArg String.Pos.Raw.byteIdx hplace
  rw [String.utf8ByteSize_append] at hsize
  have hcuts : consumed.toList ++ rest.toList = front.toList ++ rest'.toList := by
    rw [← String.toList_append, ← String.toList_append, htext]
  have hle : byteLength consumed.toList ≤ byteLength front.toList := by
    rw [Scanner.byteLength_toList, Scanner.byteLength_toList]
    omega
  obtain ⟨w, hw, hrest⟩ := Scanner.exists_between hcuts hle
  have hfront : front = consumed ++ String.ofList w := by
    rw [← String.toList_inj, String.toList_append, String.toList_ofList, hw]
  refine ⟨String.ofList w, rest', ?_, ?_⟩
  · rw [← String.toList_inj, String.toList_append, String.toList_ofList, hrest]
  · rw [hfront, String.utf8ByteSize_append] at hsize
    omega

/-- The next move goes over the characters up to the next stop. -/
theorem ReadBy.advance {source : String} {moves : List ℕ} {consumed rest : String} {bytes : ℕ}
    (h : ReadBy source moves consumed rest)
    (hstop : String.Pos.Raw.IsValid source ⟨reach source (moves ++ [bytes])⟩) :
    ∃ consumed' rest', ReadBy source (moves ++ [bytes]) consumed' rest' := by
  obtain ⟨rfl, hsize, hscanner, hoffsets⟩ := h
  rw [reach_concat, ← hsize] at hstop
  obtain ⟨w, rest', rfl, hw⟩ := exists_stop hstop
  have hbytes : byteLength w.toList = min bytes (byteLength (w.toList ++ rest'.toList)) := by
    rw [← String.toList_append, Scanner.byteLength_toList, Scanner.byteLength_toList, hw]
  refine ⟨consumed ++ w, rest', by rw [String.append_assoc], ?_, ?_, ?_⟩
  · rw [reach_concat, ← hsize, String.utf8ByteSize_append, String.utf8ByteSize_append]
    omega
  · rw [Scanner.advanceAll_concat, hscanner, String.toList_append,
      Scanner.advanceBytes_of_byteLength _ hbytes, Position.afterAll_behind, String.toList_append]
  · rw [Offsets.advanceAll_concat, hoffsets, String.toList_append, String.toList_append,
      Offsets.advance_behind hbytes, String.toList_append]

theorem exists_readBy {source : String} {moves : List ℕ} (h : StopsBetween source moves) :
    ∃ consumed rest, ReadBy source moves consumed rest := by
  induction moves using List.reverseRecOn with
  | nil => exact ⟨"", source, by simp, by simp [reach], rfl, rfl⟩
  | append_singleton moves bytes ih =>
      obtain ⟨consumed, rest, hread⟩ := ih h.of_concat
      exact hread.advance (h _ ((List.mem_inits _ _).mpr (List.prefix_refl _)))

/-- What was read depends on the number of bytes alone. -/
theorem ReadBy.unique {source : String} {moves moves' : List ℕ}
    {consumed rest consumed' rest' : String} (h : ReadBy source moves consumed rest)
    (h' : ReadBy source moves' consumed' rest') (hreach : reach source moves = reach source moves') :
    consumed = consumed' ∧ rest = rest' := by
  have hcuts : consumed.toList ++ rest.toList = consumed'.toList ++ rest'.toList := by
    rw [← String.toList_append, ← String.toList_append, ← h.source_eq, ← h'.source_eq]
  have hsize : byteLength consumed.toList = byteLength consumed'.toList := by
    rw [Scanner.byteLength_toList, Scanner.byteLength_toList, h.size, h'.size, hreach]
  obtain ⟨w, hw, hrest⟩ := Scanner.exists_between hcuts hsize.le
  rw [hw, Scanner.byteLength_append] at hsize
  obtain rfl : w = [] := Scanner.eq_nil_of_byteLength (by omega)
  exact ⟨String.toList_inj.mp (by simpa using hw.symm), String.toList_inj.mp (by simpa using hrest)⟩

end ScriptFront.Source
