import ScriptFront.Diagnostic.Rendering
import ScriptFront.Proofs.Source.Lines
import ScriptFront.Proofs.Token.Spelling

/-!
# Where lexical faults point

A fault of the lexer is about a character of the text: the one with which no token begins,
the letter behind a number, the quote that opens no string, or the first digit of a number
that is too large. The fault is placed at this character, and when it is shown with the
line of the source, the caret stands below it.
-/
namespace ScriptFront

/-! ## What a fault is about -/

/-- The fault is about the character in front of the text. -/
inductive Fault.Blames : Fault → List Char → Prop
  | unrecognised {c : Char} {cs : List Char} : ¬ Text.isWhiteSpace c →
      Blames (.unrecognisedToken (String.singleton c)) (c :: cs)
  | suffix {c : Char} {cs : List Char} : Pattern.isWordStart c →
      Blames (.invalidNumberSuffix c) (c :: cs)
  | openQuote {cs : List Char} : Blames .unterminatedString ('"' :: cs)
  /-- The number that is too large is the whole run of digits that begins here. -/
  | digits {w rest : List Char} : Numeral.IsDigits w → (∀ c ∈ rest.head?, ¬ c.isDigit) →
      Blames (.numberParseError (String.ofList w)) (w ++ rest)

/-- A fault is never about a blank. -/
theorem Fault.Blames.exists_cons {f : Fault} {cs : List Char} (h : f.Blames cs) :
    ∃ c after, cs = c :: after ∧ ¬ Text.isWhiteSpace c := by
  cases h with
  | unrecognised hc => exact ⟨_, _, rfl, hc⟩
  | suffix hc => exact ⟨_, _, rfl, Pattern.not_isWhiteSpace_of_isWordStart hc⟩
  | openQuote => exact ⟨_, _, rfl, by decide⟩
  | digits hw =>
      obtain ⟨c, w, rfl⟩ := List.exists_cons_of_ne_nil hw.1
      exact ⟨c, _, rfl, Pattern.not_isWhiteSpace_of_isDigit (hw.2 c List.mem_cons_self)⟩

namespace Pattern

variable {lexeme rest : List Char} {place : Position} {d : Diagnostic}

/-- A number without a point is followed by no digit. -/
theorem not_isDigit_of_longest (hw : Numeral.IsDigits lexeme) (h : Longest lexeme rest) :
    ∀ c ∈ rest.head?, ¬ c.isDigit := by
  intro c hc hdigit
  obtain ⟨after, rfl⟩ := List.head?_eq_some_iff.mp hc
  have hlonger : Numeral.IsDigits (lexeme ++ [c]) :=
    ⟨by simp, List.forall_mem_append.mpr ⟨hw.2, List.forall_mem_singleton.mpr hdigit⟩⟩
  have hle := h.length_le number (by decide) (lexeme ++ [c]) after (by simp) (.integer hlonger)
  rw [List.length_append, List.length_singleton] at hle
  omega

/-- A number is blamed for its size, or the letter behind it. -/
theorem exists_culprit_of_numberToken (hmatches : Matches number lexeme rest)
    (hlongest : Longest lexeme rest) (h : numberToken lexeme rest place = .error d) :
    ∃ w culprit, lexeme ++ rest = w ++ culprit ∧ d.position = place.afterAll w ∧
      d.fault.Blames culprit := by
  unfold numberToken at h
  split at h
  · next suffix hsuffix =>
      cases h
      obtain ⟨hhead, hstart⟩ := Option.filter_eq_some_iff.mp hsuffix
      obtain ⟨after, rfl⟩ := List.head?_eq_some_iff.mp hhead
      exact ⟨lexeme, suffix :: after, rfl, rfl, .suffix hstart⟩
  · dsimp only at h
    split_ifs at h with hpoint
    cases h
    cases hmatches with
    | float => simp at hpoint
    | integer hw =>
        exact ⟨[], lexeme ++ rest, rfl, rfl, .digits hw (not_isDigit_of_longest hw hlongest)⟩

theorem exists_culprit_of_read {p : Pattern}
    (hfirst : first? (lexeme ++ rest) = some (p, lexeme.length))
    (h : p.read lexeme rest place = .error d) :
    ∃ w culprit, lexeme ++ rest = w ++ culprit ∧ d.position = place.afterAll w ∧
      d.fault.Blames culprit := by
  obtain ⟨-, hmatches⟩ := matches_of_first? hfirst
  unfold read at h
  cases p with
  | blanks | lineComment | blockComment | word | quotedText | mark => cases h
  | number =>
      exact exists_culprit_of_numberToken hmatches (longest_of_first? hfirst nofun)
        (read_number_eq_error_iff.mp h)
  | openQuote =>
      cases h
      cases hmatches
      exact ⟨[], '"' :: rest, rfl, rfl, .openQuote⟩

/-- A blank is always recognised. -/
theorem exists_first?_of_isWhiteSpace {c : Char} (hc : Text.isWhiteSpace c) (cs : List Char) :
    ∃ n, first? (c :: cs) = some (blanks, n + 1) := by
  obtain ⟨w, rest, rfl, hw, hrest⟩ := exists_run Text.isWhiteSpace cs
  exact ⟨w.length, first?_blanks (List.cons_ne_nil c w) (List.forall_mem_cons.mpr ⟨hc, hw⟩) hrest⟩

end Pattern

/-- The character above the caret. -/
def MarkedLine.marked? (line : MarkedLine) : Option Char := line.text.toList[line.caret]?

namespace Token

open Source (Scanner)

/-- Where the lexer is stuck, it blames a character that it has still to read. -/
theorem Stuck.exists_culprit {s : Scanner} {d : Diagnostic} (h : Stuck s d) :
    ∃ w culprit, s.rest = w ++ culprit ∧ d.position = s.position.afterAll w ∧
      d.fault.Blames culprit := by
  cases h with
  | lexeme _ hfirst hread => exact Pattern.exists_culprit_of_read hfirst hread
  | unrecognised hfirst =>
      refine ⟨[], _, rfl, rfl, .unrecognised fun hblank => ?_⟩
      obtain ⟨n, hn⟩ := Pattern.exists_first?_of_isWhiteSpace hblank _
      exact hfirst _ n hn

/-- A fault of the lexer stands at a place of the text, and blames what is there. -/
theorem exists_culprit_of_scan {source : String} {d : Diagnostic}
    (h : ofSource source = .error d) : ∃ before culprit, source.toList = before ++ culprit ∧
      d.position = Position.behind before ∧ d.fault.Blames culprit := by
  obtain ⟨tokens, s, hrun, hstuck⟩ := exists_stuck_of_scan h
  obtain ⟨v, hv, hplace⟩ := hrun.exists_lexemes
  obtain ⟨w, culprit, hw, hposition, hblames⟩ := hstuck.exists_culprit
  refine ⟨v ++ w, culprit, ?_, ?_, hblames⟩
  · rw [List.append_assoc, ← hw, ← hv]
    rfl
  · rw [hposition, hplace, ← Position.afterAll_append]
    exact Position.afterAll_behind [] (v ++ w)

/-- The caret below a character of the source stands under that character. -/
theorem marked?_behind {source : String} {before after : List Char} {c : Char}
    (h : source.toList = before ++ c :: after) (hc : ¬ Text.isWhiteSpace c) :
    (MarkedLine.ofSource source (Position.behind before)).marked? = some c := by
  have hfeed : c ≠ '\n' := by
    rintro rfl
    exact hc (by decide)
  have hreturn : c ≠ '\r' := by
    rintro rfl
    exact hc (by decide)
  obtain ⟨rest, hline⟩ := Source.exists_line_behind h hfeed hreturn
  have hcaret : (MarkedLine.ofSource source (Position.behind before)).caret =
      (Source.lastLine before).length := by
    rw [MarkedLine.ofSource, Source.lastLine, List.length_reverse]
    exact Nat.add_sub_cancel_left ..
  rw [MarkedLine.marked?, hcaret, MarkedLine.ofSource, hline,
    List.getElem?_append_right (Nat.le_refl _), Nat.sub_self, List.getElem?_cons_zero]

/-- A fault of the lexer stands at the character that it is about, and that is the
character of the marked line above the caret. -/
theorem culprit_above_caret {source : String} {d : Diagnostic} (h : ofSource source = .error d) :
    ∃ before c after, source.toList = before ++ c :: after ∧
      d.position = Position.behind before ∧ d.fault.Blames (c :: after) ∧
      (MarkedLine.ofSource source d.position).marked? = some c := by
  obtain ⟨before, culprit, htext, hposition, hblames⟩ := exists_culprit_of_scan h
  obtain ⟨c, after, rfl, hc⟩ := hblames.exists_cons
  rw [hposition]
  exact ⟨before, c, after, htext, rfl, hblames, marked?_behind htext hc⟩

/-- The letter behind a number, in a line behind a string and a comment that go over lines
with different endings. -/
theorem culprit_above_caret_of_suffix :
    let source := "s = \"é\r\nü\" /* ö\n\r\n */ + 12ab;\r\n"
    let d : Diagnostic := ⟨.invalidNumberSuffix 'a', ⟨4, 9⟩⟩
    ofSource source = .error d ∧
      MarkedLine.ofSource source d.position = ⟨" */ + 12ab;", 8⟩ ∧
      ∃ before c after, source.toList = before ++ c :: after ∧
        d.position = Position.behind before ∧ d.fault.Blames (c :: after) ∧
        (MarkedLine.ofSource source d.position).marked? = some c := by
  intro source d
  have h : ofSource source = .error d := by decide +kernel
  exact ⟨h, by decide +kernel, culprit_above_caret h⟩

end Token

end ScriptFront
