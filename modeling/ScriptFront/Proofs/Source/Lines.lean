import Mathlib.Data.List.TakeWhile
import ScriptFront.Proofs.Source.Places
import ScriptFront.Source.Scanner

/-!
# The line at a place

A place is found by counting line feeds, and the lines of a text are cut at line feeds and
rid of carriage returns. Both agree on every character that is no part of a line ending:
it stands in the line of its place, behind as many characters as its column says.
-/
namespace ScriptFront.Source

/-- The part of a text behind its last line feed. -/
def lastLine (cs : List Char) : List Char := (cs.reverse.takeWhile (· ≠ '\n')).reverse

theorem linesFrom_cons {c : Char} (hc : c ≠ '\n') (pending cs : List Char) :
    linesFrom pending (c :: cs) = linesFrom (c :: pending) cs := by
  rw [linesFrom]
  exact fun h => hc h

theorem takeWhile_append_cons {p : Char → Bool} {c : Char} (hc : ¬ p c) (cs ds : List Char) :
    (cs ++ c :: ds).takeWhile p = cs.takeWhile p := by
  rw [List.takeWhile_append, List.takeWhile_cons_of_neg hc, List.append_nil]
  split_ifs with hlength
  · exact (List.takeWhile_prefix p).eq_of_length hlength |>.symm
  · rfl

/-- The lines that end before a place do not count for the line at that place. -/
theorem getElem?_linesFrom {pending : List Char} (hpending : ∀ c ∈ pending, c ≠ '\n')
    (before rest : List Char) : (linesFrom pending (before ++ rest))[before.count '\n']? =
      (linesFrom ((before.reverse ++ pending).takeWhile (· ≠ '\n')) rest)[0]? := by
  induction before generalizing pending with
  | nil =>
      have hall : pending.takeWhile (· ≠ '\n') = pending :=
        List.takeWhile_eq_self_iff.mpr (by simpa using hpending)
      rw [List.nil_append, List.count_nil, List.reverse_nil, List.nil_append, hall]
  | cons c cs ih =>
      rw [List.reverse_cons, List.append_assoc, List.singleton_append]
      by_cases hc : c = '\n'
      · subst hc
        have hcut :=
          takeWhile_append_cons (p := (· ≠ '\n')) (c := '\n') (by simp) cs.reverse pending
        have hnew := ih (List.forall_mem_nil _)
        rw [List.append_nil] at hnew
        rw [hcut, ← hnew, List.count_cons_self]
        rfl
      · rw [List.count_cons_of_ne hc, List.cons_append, linesFrom_cons hc,
          ih (List.forall_mem_cons.mpr ⟨hc, hpending⟩)]

theorem dropReturn_append_cons {c : Char} (hc : c ≠ '\r') (cs ds : List Char) :
    dropReturn (cs ++ c :: ds) = cs ++ c :: dropReturn ds := by
  induction cs with
  | nil =>
      rw [List.nil_append, dropReturn, List.nil_append]
      exact fun h => absurd h hc
  | cons d cs ih =>
      rw [List.cons_append, dropReturn, ih, List.cons_append]
      simp

/-- A line begins with what was read of it, up to a character that is no carriage return. -/
theorem exists_first_line {c : Char} (hc : c ≠ '\r') (w pending cs : List Char) :
    ∃ rest, (linesFrom (w ++ c :: pending) cs)[0]? = some (pending.reverse ++ c :: rest) := by
  induction cs generalizing w with
  | nil => exact ⟨w.reverse, by simp [linesFrom]⟩
  | cons d cs ih =>
      by_cases hd : d = '\n'
      · subst hd
        refine ⟨dropReturn w.reverse, ?_⟩
        rw [linesFrom, List.getElem?_cons_zero, List.reverse_append, List.reverse_cons,
          List.append_assoc, List.singleton_append, dropReturn_append_cons hc]
      · rw [linesFrom_cons hd]
        exact ih (d :: w)

/-- The line at the place of a character begins with what stands before that character,
and the character follows. -/
theorem exists_line_behind {source : String} {before after : List Char} {c : Char}
    (h : source.toList = before ++ c :: after) (hfeed : c ≠ '\n') (hreturn : c ≠ '\r') :
    ∃ rest, (line source (Position.behind before).line).toList =
      lastLine before ++ c :: rest := by
  have hnumber : (Position.behind before).line - 1 = before.count '\n' := Nat.add_sub_cancel_left ..
  have hskip := getElem?_linesFrom (List.forall_mem_nil _) before (c :: after)
  rw [List.append_nil, linesFrom_cons hfeed] at hskip
  obtain ⟨rest, hrest⟩ := exists_first_line hreturn [] (before.reverse.takeWhile (· ≠ '\n')) after
  rw [List.nil_append] at hrest
  refine ⟨rest, ?_⟩
  rw [line, lines, List.getElem?_map, h, hnumber, hskip, hrest, Option.map_some,
    Option.getD_some, String.toList_ofList]
  rfl

end ScriptFront.Source
