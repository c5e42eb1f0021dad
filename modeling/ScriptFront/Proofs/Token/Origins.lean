import ScriptFront.Proofs.Diagnostic.OneLine
import ScriptFront.Proofs.Token.Layout

/-!
# Where the tokens of a source text come from

Each token but the end mark is what a pattern has read from a lexeme that it matches.
What is known of the lexemes is so known of the tokens: a number has a value, and only a
string has a line feed in its text. A fault of the reading is always a lexical one.
-/
namespace ScriptFront

namespace Token

open Source (Scanner)

theorem originates_of_scan {s : Scanner} {tokens : List Token} (h : scan s = .ok tokens) :
    ∀ t ∈ tokens, t = endOfInput t.position ∨ t.Originates := by
  obtain ⟨body, place, rfl, hrun⟩ := exists_run_of_scan h
  intro t ht
  rcases List.mem_append.mp ht with ht | ht
  · exact .inr (hrun.originates t ht)
  · obtain rfl := List.mem_singleton.mp ht
    exact .inl rfl

end Token

/-! ## Faults -/

namespace Pattern

theorem stage?_of_numberToken {lexeme following : List Char} {place : Position} {d : Diagnostic}
    (h : numberToken lexeme following place = .error d) : d.fault.stage? = some .lexing := by
  unfold numberToken at h
  split at h
  · cases h
    rfl
  · dsimp only at h
    split_ifs at h
    cases h
    rfl

theorem stage?_of_read {p : Pattern} {lexeme following : List Char} {place : Position}
    {d : Diagnostic} (h : p.read lexeme following place = .error d) :
    d.fault.stage? = some .lexing := by
  unfold read at h
  cases p with
  | blanks | lineComment | blockComment | word | quotedText | mark => cases h
  | number => exact stage?_of_numberToken (read_number_eq_error_iff.mp h)
  | openQuote =>
      cases h
      rfl

end Pattern

theorem Token.stage?_of_scan {s : Source.Scanner} {d : Diagnostic} (h : scan s = .error d) :
    d.fault.stage? = some .lexing := by
  obtain ⟨tokens, t, -, hstuck⟩ := exists_stuck_of_scan h
  cases hstuck with
  | lexeme _ _ hread => exact Pattern.stage?_of_read hread
  | unrecognised => rfl

/-! ## Numbers -/

namespace Pattern

/-- A number is read as an integer in range, or as digits around a point. -/
theorem numeric_numberToken {lexeme rest following : List Char} {place : Position} {t : Token}
    (hmatches : Matches number lexeme rest)
    (h : numberToken lexeme following place = .ok t) : t.Numeric := by
  unfold numberToken at h
  split at h
  · cases h
  dsimp only at h
  cases hmatches with
  | integer hw =>
      have hpoint : ¬ lexeme.contains '.' = true := by
        rw [List.contains_iff_mem]
        intro hmem
        exact absurd (hw.2 _ hmem) (by decide)
      rw [if_neg hpoint] at h
      split_ifs at h with hlimit
      obtain rfl := Except.ok.inj h
      refine ⟨fun _ => ?_, nofun⟩
      rw [String.toList_ofList]
      exact ⟨hw, hlimit⟩
  | float hw hf =>
      rw [if_pos (by simp)] at h
      obtain rfl := Except.ok.inj h
      exact ⟨nofun, fun _ => ⟨_, _, hw, hf, String.toList_ofList⟩⟩

end Pattern

theorem Token.Originates.numeric {t : Token} (h : t.Originates) : t.Numeric := by
  obtain @⟨p, lexeme, rest, following, place, hp, hmatches, hread⟩ := h
  cases p with
  | blanks | lineComment | blockComment | openQuote => cases hread
  | word =>
      cases hread
      have hkinds : ∀ k ∈ TokenKind.identifier :: TokenKind.reserved.map Prod.snd,
          k ≠ .int ∧ k ≠ .float := by decide
      obtain ⟨hi, hf⟩ := hkinds _ (TokenKind.ofWord_mem (String.ofList lexeme))
      exact Token.numeric_of_kind hi hf
  | number => exact Pattern.numeric_numberToken hmatches (Pattern.read_number_eq_some_iff.mp hread)
  | quotedText =>
      cases hread
      exact Token.numeric_of_kind nofun nofun
  | mark spelling kind =>
      cases hread
      have hkinds : ∀ k ∈ Pattern.table.filterMap Pattern.kind?, k ≠ .int ∧ k ≠ .float := by
        decide
      obtain ⟨hi, hf⟩ := hkinds kind (List.mem_filterMap.mpr ⟨_, hp, rfl⟩)
      exact Token.numeric_of_kind hi hf

/-! ## Lines -/

namespace Pattern

theorem ne_newline_of_isWordPart {c : Char} (h : isWordPart c) : c ≠ '\n' := by
  rintro rfl
  exact absurd h (by decide)

theorem ne_newline_of_isDigit {c : Char} (h : c.isDigit) : c ≠ '\n' := by
  rintro rfl
  exact absurd h (by decide)

/-- The lexeme of a word or a number is in one line. -/
theorem Matches.newline_notMem {p : Pattern} {lexeme rest : List Char} (h : p.Matches lexeme rest)
    (hp : p = Pattern.word ∨ p = Pattern.number) : '\n' ∉ lexeme := by
  intro hmem
  rcases hp with rfl | rfl
  · cases h with
    | word hc hw =>
        rcases List.mem_cons.mp hmem with rfl | hmem
        · exact absurd hc (by decide)
        · exact ne_newline_of_isWordPart (hw _ hmem) rfl
  · cases h with
    | integer hw => exact ne_newline_of_isDigit (hw.2 _ hmem) rfl
    | float hw hf =>
        rcases List.mem_append.mp hmem with hmem | hmem
        · exact ne_newline_of_isDigit (hw.2 _ hmem) rfl
        · rcases List.mem_cons.mp hmem with hmem | hmem
          · exact absurd hmem (by decide)
          · exact ne_newline_of_isDigit (hf.2 _ hmem) rfl

theorem oneLine_spelling : ∀ p ∈ table, ∀ spelling kind, p = mark spelling kind →
    Text.OneLine spelling := by
  have hfronts : ∀ p ∈ table, '\n' ∉ p.front := by decide
  rintro _ hp spelling kind rfl
  exact hfronts _ hp

end Pattern

/-- Only a string can have a line feed in its text. -/
theorem Token.Originates.oneLine {t : Token} (h : t.Originates) (hk : t.kind ≠ .string) :
    Text.OneLine t.text := by
  obtain @⟨p, lexeme, rest, following, place, hp, hmatches, hread⟩ := h
  have hlexeme : p = .word ∨ p = .number → Text.OneLine (String.ofList lexeme) := by
    intro hp
    unfold Text.OneLine
    rw [String.toList_ofList]
    exact hmatches.newline_notMem hp
  cases p with
  | blanks | lineComment | blockComment | openQuote => cases hread
  | word =>
      cases hread
      exact hlexeme (.inl rfl)
  | number =>
      rcases Pattern.eq_of_numberToken (Pattern.read_number_eq_some_iff.mp hread) with rfl | rfl <;>
        exact hlexeme (.inr rfl)
  | quotedText =>
      cases hread
      exact absurd rfl hk
  | mark spelling kind =>
      cases hread
      exact Pattern.oneLine_spelling _ hp spelling kind rfl

/-! ## Words -/

/-- An identifier is a word from its first character to its last. -/
theorem Token.Originates.isWordPart {t : Token} (h : t.Originates) (hk : t.kind = .identifier) :
    ∀ c ∈ t.text.toList, Pattern.isWordPart c := by
  obtain @⟨p, lexeme, rest, following, place, hp, hmatches, hread⟩ := h
  cases p with
  | blanks | lineComment | blockComment | openQuote => cases hread
  | word =>
      cases hread
      rw [String.toList_ofList]
      cases hmatches with
      | word hc hw =>
          refine List.forall_mem_cons.mpr ⟨?_, hw⟩
          rw [Pattern.isWordPart, hc, Bool.true_or]
  | number =>
      rcases Pattern.eq_of_numberToken (Pattern.read_number_eq_some_iff.mp hread) with rfl | rfl <;>
        cases hk
  | quotedText =>
      cases hread
      cases hk
  | mark spelling kind =>
      cases hread
      exact absurd hk (Pattern.kind_of_mark_mem hp).2.1

/-- Every number of a source text has a value. -/
theorem Token.numeric_of_scan {s : Source.Scanner} {tokens : List Token}
    (h : scan s = .ok tokens) : ∀ t ∈ tokens, t.Numeric := by
  intro t ht
  rcases originates_of_scan h t ht with heq | hread
  · rw [heq]
    exact Token.numeric_of_kind nofun nofun
  · exact hread.numeric

theorem Token.oneLine_of_scan {s : Source.Scanner} {tokens : List Token}
    (h : scan s = .ok tokens) : ∀ t ∈ tokens, t.kind ≠ .string → Text.OneLine t.text := by
  intro t ht hk
  rcases originates_of_scan h t ht with heq | hread
  · have heof : Text.OneLine "EOF" := by decide
    rw [heq]
    exact heof
  · exact hread.oneLine hk

theorem Token.isWordPart_of_scan {s : Source.Scanner} {tokens : List Token}
    (h : scan s = .ok tokens) :
    ∀ t ∈ tokens, t.kind = .identifier → ∀ c ∈ t.text.toList, Pattern.isWordPart c := by
  intro t ht hk
  rcases originates_of_scan h t ht with heq | hread
  · rw [heq] at hk
    cases hk
  · exact hread.isWordPart hk

end ScriptFront
