import Mathlib.Data.List.TakeWhile
import Mathlib.Tactic.Common
import ScriptFront.Proofs.Token.Numbers
import ScriptFront.Token.Lexer

/-!
# Lexemes

What each pattern matches is a set of texts; a pattern of the table takes the
longest of them that stands in front, block comments apart, which end at their first
closing mark. Which pattern comes first in the table is mostly settled by the first
character of the text; where several patterns begin alike, the one that takes more
stands before the others. Hence the first pattern that takes something takes as much
as any other.
-/
namespace ScriptFront.Pattern

/-! ## What the patterns match -/

/-- What may stand between the quotes of a string: no quote and no backslash, except
that a backslash stands before any character but a line feed. -/
inductive Quotable : List Char → Prop
  | nil : Quotable []
  | escape {c : Char} {cs : List Char} : c ≠ '\n' → Quotable cs → Quotable ('\\' :: c :: cs)
  | plain {c : Char} {cs : List Char} : c ≠ '"' → c ≠ '\\' → Quotable cs → Quotable (c :: cs)

/-- The pattern matches a text in front of the text `rest`. A block comment may
contain a closing mark here: where it ends is not a matter of matching. -/
inductive Matches : Pattern → List Char → List Char → Prop
  | blanks {w rest : List Char} : w ≠ [] → (∀ c ∈ w, Text.isWhiteSpace c) → Matches blanks w rest
  | lineComment {w rest : List Char} :
      (∀ c ∈ w, c ≠ '\n') → Matches lineComment ('/' :: '/' :: w) rest
  | closedComment {w rest : List Char} :
      Matches blockComment ('/' :: '*' :: (w ++ ['*', '/'])) rest
  | openComment {w : List Char} : Matches blockComment ('/' :: '*' :: w) []
  | word {c : Char} {w rest : List Char} :
      isWordStart c → (∀ d ∈ w, isWordPart d) → Matches word (c :: w) rest
  | integer {w rest : List Char} : Numeral.IsDigits w → Matches number w rest
  | float {whole fraction rest : List Char} :
      Numeral.IsDigits whole → Numeral.IsDigits fraction →
        Matches number (whole ++ '.' :: fraction) rest
  | quotedText {w rest : List Char} : Quotable w → Matches quotedText ('"' :: (w ++ ['"'])) rest
  | openQuote {rest : List Char} : Matches openQuote ['"'] rest
  | mark {spelling : String} {kind : TokenKind} {rest : List Char} :
      Matches (mark spelling kind) spelling.toList rest

/-! ## Runs of characters -/

/-- A text begins with a run of characters of a class, which may be empty. -/
theorem exists_run (p : Char → Bool) (cs : List Char) :
    ∃ w rest, cs = w ++ rest ∧ (∀ c ∈ w, p c) ∧ ∀ c ∈ rest.head?, ¬ p c := by
  refine ⟨cs.takeWhile p, cs.dropWhile p, List.takeWhile_append_dropWhile.symm,
    fun c hc => List.mem_takeWhile_imp hc, fun c hc => ?_⟩
  have h := List.head?_dropWhile_not p cs
  rw [Option.mem_def.mp hc] at h
  simpa using h

theorem takeWhile_run {p : Char → Bool} {w rest : List Char} (hw : ∀ c ∈ w, p c)
    (hrest : ∀ c ∈ rest.head?, ¬ p c) : (w ++ rest).takeWhile p = w := by
  rw [List.takeWhile_append_of_pos hw]
  cases rest with
  | nil => simp
  | cons c rest =>
      have hc : ¬ p c := hrest c (by simp)
      simp [hc]

theorem length_takeWhile_append {p : Char → Bool} {w : List Char} (h : ∀ c ∈ w, p c)
    (rest : List Char) : w.length ≤ ((w ++ rest).takeWhile p).length := by
  rw [List.takeWhile_append_of_pos h, List.length_append]
  omega

/-- A run is taken as a whole, together with what continues it. -/
theorem exists_runLength? {p : Char → Bool} {w : List Char} (hne : w ≠ []) (hw : ∀ c ∈ w, p c)
    (rest : List Char) : ∃ n, runLength? p (w ++ rest) = some n ∧ w.length ≤ n := by
  have hle := length_takeWhile_append hw rest
  have hlength : w.length ≠ 0 := by simpa using hne
  unfold runLength?
  split
  · next h => omega
  · next n h => exact ⟨n + 1, rfl, by omega⟩

theorem runLength?_run {p : Char → Bool} {w rest : List Char} (hne : w ≠ []) (hw : ∀ c ∈ w, p c)
    (hrest : ∀ c ∈ rest.head?, ¬ p c) : runLength? p (w ++ rest) = some w.length := by
  have hlength : w.length ≠ 0 := by simpa using hne
  unfold runLength?
  rw [takeWhile_run hw hrest]
  split
  · next h => exact absurd h hlength
  · next n h => rw [h]

theorem exists_of_runLength? {p : Char → Bool} {cs : List Char} {n : ℕ}
    (h : runLength? p cs = some n) : ∃ w rest, cs = w ++ rest ∧ w.length = n ∧ w ≠ [] ∧
      (∀ c ∈ w, p c) ∧ ∀ c ∈ rest.head?, ¬ p c := by
  obtain ⟨w, rest, rfl, hw, hrest⟩ := exists_run p cs
  cases w with
  | nil =>
      have hnone := takeWhile_run hw hrest
      rw [List.nil_append] at h hnone
      rw [runLength?, hnone] at h
      cases h
  | cons c w =>
      rw [runLength?_run (by simp) hw hrest, Option.some.injEq] at h
      exact ⟨c :: w, rest, rfl, h, by simp, hw, hrest⟩

/-! ## Comments and strings -/

/-- The two characters that close a block comment. -/
def closingMark : List Char := ['*', '/']

/-- No block comment is closed in the text. -/
def Unclosed (w : List Char) : Prop := ¬ closingMark <:+: w

instance (w : List Char) : Decidable (Unclosed w) :=
  inferInstanceAs (Decidable (¬ closingMark <:+: w))

theorem unclosed_cons_iff {c : Char} {w : List Char} :
    Unclosed (c :: w) ↔ ¬ closingMark <+: c :: w ∧ Unclosed w := by
  rw [Unclosed, List.infix_cons_iff, not_or, Unclosed]

/-- A block comment ends with the first closing mark, or else with the text. -/
theorem blockLength_spec (cs : List Char) :
    (∃ w rest, cs = w ++ closingMark ++ rest ∧ Unclosed (w ++ ['*']) ∧
      blockLength cs = w.length + 2) ∨ Unclosed cs ∧ blockLength cs = cs.length := by
  induction cs using blockLength.induct with
  | case1 => exact .inr ⟨by decide, rfl⟩
  | case2 cs => exact .inl ⟨[], cs, rfl, by decide, rfl⟩
  | case3 c cs hopen ih =>
      have hstep : blockLength (c :: cs) = blockLength cs + 1 := blockLength.eq_3 c cs hopen
      have hfront : ¬ closingMark <+: c :: cs := by
        rintro ⟨rest, hrest⟩
        obtain ⟨hc, hcs⟩ := List.cons.inj hrest
        exact hopen rest hc.symm hcs.symm
      rcases ih with ⟨w, rest, rfl, hw, hlength⟩ | ⟨hcs, hlength⟩
      · refine .inl ⟨c :: w, rest, rfl, unclosed_cons_iff.mpr ⟨fun h => hfront ?_, hw⟩, ?_⟩
        · have hlonger : c :: (w ++ ['*']) <+: c :: (w ++ closingMark ++ rest) :=
            ⟨'/' :: rest, by simp [closingMark]⟩
          exact h.trans hlonger
        · rw [hstep, hlength, List.length_cons]
      · exact .inr ⟨unclosed_cons_iff.mpr ⟨hfront, hcs⟩, by rw [hstep, hlength, List.length_cons]⟩

theorem blockLength_of_closed {w : List Char} (h : Unclosed (w ++ ['*'])) (rest : List Char) :
    blockLength (w ++ closingMark ++ rest) = w.length + 2 := by
  induction w with
  | nil => rfl
  | cons c w ih =>
      obtain ⟨hfront, hw⟩ := unclosed_cons_iff.mp h
      have hopen : ∀ cs, c = '*' → w ++ closingMark ++ rest = '/' :: cs → False := by
        rintro cs rfl hcs
        apply hfront
        cases w with
        | nil => cases hcs
        | cons d w =>
            obtain ⟨rfl, -⟩ := List.cons.inj hcs
            exact ⟨w ++ ['*'], rfl⟩
      calc blockLength (c :: (w ++ closingMark ++ rest))
          = blockLength (w ++ closingMark ++ rest) + 1 := blockLength.eq_3 _ _ hopen
        _ = w.length + 1 + 2 := by rw [ih hw, Nat.add_right_comm]

theorem blockLength_of_unclosed {cs : List Char} (h : Unclosed cs) :
    blockLength cs = cs.length := by
  rcases blockLength_spec cs with ⟨w, rest, rfl, -, -⟩ | ⟨-, hlength⟩
  · exact absurd ⟨w, rest, rfl⟩ h
  · exact hlength

theorem exists_of_stringLength? {cs : List Char} {n : ℕ} (h : stringLength? cs = some n) :
    ∃ w rest, cs = w ++ '"' :: rest ∧ n = w.length + 1 ∧ Quotable w := by
  induction cs using stringLength?.induct generalizing n with
  | case1 => cases h
  | case2 cs =>
      cases h
      exact ⟨[], cs, rfl, rfl, .nil⟩
  | case3 => cases h
  | case4 cs =>
      rw [stringLength?, if_pos rfl] at h
      cases h
  | case5 c cs hc ih =>
      rw [stringLength?, if_neg hc, Option.map_eq_some_iff] at h
      obtain ⟨m, hm, rfl⟩ := h
      obtain ⟨w, rest, rfl, rfl, hw⟩ := ih hm
      exact ⟨'\\' :: c :: w, rest, rfl, rfl, .escape hc hw⟩
  | case6 c cs hquote hlast hescape ih =>
      rw [stringLength?, Option.map_eq_some_iff] at h
      · obtain ⟨m, hm, rfl⟩ := h
        obtain ⟨w, rest, rfl, rfl, hw⟩ := ih hm
        refine ⟨c :: w, rest, rfl, rfl, .plain (fun hc => hquote hc) (fun hc => ?_) hw⟩
        cases w with
        | nil => exact hescape '"' rest hc rfl
        | cons d w => exact hescape d (w ++ '"' :: rest) hc rfl
      · exact hquote
      · exact hlast
      · exact hescape

theorem stringLength?_quotable {w : List Char} (h : Quotable w) (rest : List Char) :
    stringLength? (w ++ '"' :: rest) = some (w.length + 1) := by
  induction h with
  | nil => rfl
  | @escape c cs hc _ ih =>
      show stringLength? ('\\' :: c :: (cs ++ '"' :: rest)) = _
      rw [stringLength?, if_neg hc, ih]
      rfl
  | @plain c cs hq hb _ ih =>
      show stringLength? (c :: (cs ++ '"' :: rest)) = _
      rw [stringLength?, ih]
      · rfl
      · exact hq
      · exact fun h => absurd h hb
      · exact fun _ _ h => absurd h hb

/-! ## Numbers -/

theorem fractionLength_spec (cs : List Char) :
    (∃ fraction rest, cs = '.' :: (fraction ++ rest) ∧ Numeral.IsDigits fraction ∧
      fractionLength cs = fraction.length + 1) ∨ fractionLength cs = 0 := by
  unfold fractionLength
  split
  · next cs =>
      obtain ⟨w, rest, rfl, hw, hrest⟩ := exists_run Char.isDigit cs
      rw [takeWhile_run hw hrest]
      split
      · exact .inr rfl
      · next n hn =>
          refine .inl ⟨w, rest, rfl, ⟨fun hnil => ?_, hw⟩, by rw [hn]⟩
          rw [hnil] at hn
          cases hn
  · exact .inr rfl

theorem length_le_fractionLength {fraction : List Char} (h : Numeral.IsDigits fraction)
    (rest : List Char) : fraction.length + 1 ≤ fractionLength ('.' :: (fraction ++ rest)) := by
  have hlength := length_takeWhile_append h.2 rest
  have hpos : fraction.length ≠ 0 := by simpa using h.1
  simp only [fractionLength]
  split
  · next hn => omega
  · next n hn => omega

/-! ## Matching and taking -/

/-- What a pattern takes is matched by it. -/
theorem exists_of_length? {p : Pattern} {cs : List Char} {n : ℕ} (h : p.length? cs = some n) :
    ∃ w rest, cs = w ++ rest ∧ w.length = n ∧ p.Matches w rest := by
  unfold length? at h
  split at h
  · obtain ⟨w, rest, rfl, hn, hne, hw, -⟩ := exists_of_runLength? h
    exact ⟨w, rest, rfl, hn, .blanks hne hw⟩
  · next cs =>
      obtain ⟨w, rest, rfl, hw, hrest⟩ := exists_run (fun c => c ≠ '\n') cs
      rw [takeWhile_run hw hrest, Option.some.injEq] at h
      exact ⟨'/' :: '/' :: w, rest, rfl, by simp only [List.length_cons]; omega,
        .lineComment (by simpa using hw)⟩
  · next cs =>
      cases h
      rcases blockLength_spec cs with ⟨w, rest, rfl, -, hlength⟩ | ⟨-, hlength⟩
      · rw [hlength]
        refine ⟨'/' :: '*' :: (w ++ closingMark), rest, rfl, ?_, .closedComment⟩
        simp only [closingMark, List.length_cons, List.length_append, List.length_nil]
        omega
      · exact ⟨'/' :: '*' :: cs, [], by simp, by simp [hlength]; omega, .openComment⟩
  · next c cs =>
      split_ifs at h with hc
      cases h
      obtain ⟨w, rest, rfl, hw, hrest⟩ := exists_run isWordPart cs
      rw [takeWhile_run hw hrest]
      exact ⟨c :: w, rest, rfl, by simp only [List.length_cons]; omega, .word hc hw⟩
  · rw [Option.map_eq_some_iff] at h
    obtain ⟨m, hm, rfl⟩ := h
    obtain ⟨w, rest, rfl, rfl, hne, hw, -⟩ := exists_of_runLength? hm
    rw [List.drop_left]
    rcases fractionLength_spec rest with ⟨fraction, rest, rfl, hf, hlength⟩ | hlength
    · exact ⟨w ++ '.' :: fraction, rest, by simp, by simp [hlength], .float ⟨hne, hw⟩ hf⟩
    · exact ⟨w, rest, rfl, by rw [hlength, Nat.add_zero], .integer ⟨hne, hw⟩⟩
  · next cs =>
      rw [Option.map_eq_some_iff] at h
      obtain ⟨m, hm, rfl⟩ := h
      obtain ⟨w, rest, rfl, rfl, hw⟩ := exists_of_stringLength? hm
      exact ⟨'"' :: (w ++ ['"']), rest, by simp, by simp; omega, .quotedText hw⟩
  · next cs =>
      cases h
      exact ⟨['"'], cs, rfl, rfl, .openQuote⟩
  · split_ifs at h with hfront
    cases h
    obtain ⟨rest, rfl⟩ := List.isPrefixOf_iff_prefix.mp hfront
    exact ⟨_, rest, rfl, String.length_toList, .mark⟩
  · cases h

/-- A pattern takes at least what it matches, unless it is that of block comments. -/
theorem Matches.exists_length? {p : Pattern} {w rest : List Char} (h : p.Matches w rest)
    (hp : p ≠ blockComment) : ∃ n, p.length? (w ++ rest) = some n ∧ w.length ≤ n := by
  cases h with
  | blanks hne hw => exact exists_runLength? hne hw rest
  | @lineComment w _ hw =>
      have hle := length_takeWhile_append (p := fun c => c ≠ '\n') (by simpa using hw) rest
      refine ⟨2 + ((w ++ rest).takeWhile fun c => c ≠ '\n').length, rfl, ?_⟩
      rw [List.length_cons, List.length_cons]
      omega
  | closedComment => exact absurd rfl hp
  | openComment => exact absurd rfl hp
  | @word c w _ hc hw =>
      have hle := length_takeWhile_append hw rest
      refine ⟨1 + ((w ++ rest).takeWhile isWordPart).length, if_pos hc, ?_⟩
      rw [List.length_cons]
      omega
  | integer hw =>
      obtain ⟨n, hn, hle⟩ := exists_runLength? hw.1 hw.2 rest
      exact ⟨n + fractionLength ((w ++ rest).drop n), by rw [length?, hn]; rfl, by omega⟩
  | @float whole fraction _ hw hf =>
      have hrun : runLength? Char.isDigit (whole ++ '.' :: (fraction ++ rest)) =
          some whole.length := runLength?_run hw.1 hw.2 (by simp [Char.isDigit])
      have hle := length_le_fractionLength hf rest
      rw [List.append_assoc, List.cons_append]
      refine ⟨whole.length + fractionLength ('.' :: (fraction ++ rest)), ?_, ?_⟩
      · rw [length?, hrun, Option.map_some, List.drop_left]
      · rw [List.length_append, List.length_cons]
        omega
  | @quotedText w _ hw =>
      rw [List.cons_append, List.append_assoc, List.singleton_append]
      refine ⟨1 + (w.length + 1), ?_, ?_⟩
      · rw [length?, stringLength?_quotable hw]
        rfl
      · simp only [List.length_cons, List.length_append, List.length_nil]
        omega
  | openQuote => exact ⟨1, rfl, le_rfl⟩
  | @mark spelling kind _ =>
      refine ⟨spelling.length, ?_, String.length_toList.le⟩
      rw [length?, if_pos (List.isPrefixOf_iff_prefix.mpr (List.prefix_append _ _))]

/-! ## The order of the table -/

theorem toNat_of_isWhiteSpace {c : Char} (h : Text.isWhiteSpace c) :
    c.toNat ≤ 32 ∨ 133 ≤ c.toNat := by
  simp [Text.isWhiteSpace, Text.whiteSpaceRanges] at h
  omega

theorem toNat_of_isWordStart {c : Char} (h : isWordStart c) :
    c.toNat = 36 ∨ 65 ≤ c.toNat ∧ c.toNat ≤ 122 := by
  delta isWordStart Char.isAlpha Char.isUpper Char.isLower at h
  simp only [Bool.or_eq_true, Bool.and_eq_true, decide_eq_true_eq, beq_iff_eq,
    UInt32.le_iff_toNat_le] at h
  rcases h with ((hupper | hlower) | rfl) | rfl
  · exact .inr ⟨hupper.1, hupper.2.trans (by decide)⟩
  · exact .inr ⟨le_trans (by decide) hlower.1, hlower.2⟩
  · decide
  · decide

theorem toNat_of_isDigit {c : Char} (h : c.isDigit) : 48 ≤ c.toNat ∧ c.toNat ≤ 57 := by
  simpa [Char.isDigit, UInt32.le_iff_toNat_le] using h

theorem not_isWhiteSpace_of_isWordStart {c : Char} (h : isWordStart c) :
    ¬ Text.isWhiteSpace c := by
  intro hspace
  have hword := toNat_of_isWordStart h
  have hblank := toNat_of_isWhiteSpace hspace
  omega

theorem not_isWhiteSpace_of_isDigit {c : Char} (h : c.isDigit) : ¬ Text.isWhiteSpace c := by
  intro hspace
  have hdigit := toNat_of_isDigit h
  have hblank := toNat_of_isWhiteSpace hspace
  omega

theorem not_isWordStart_of_isDigit {c : Char} (h : c.isDigit) : ¬ isWordStart c := by
  intro hstart
  have hdigit := toNat_of_isDigit h
  have hword := toNat_of_isWordStart hstart
  omega

/-- The classes of characters with which the patterns begin. -/
inductive Opener where
  | blank | letter | digit | sign
deriving DecidableEq

namespace Opener

/-- The class of a character at the beginning of a lexeme. -/
def ofChar (c : Char) : Opener :=
  if Text.isWhiteSpace c then blank
  else if isWordStart c then letter
  else if c.isDigit then digit
  else sign

theorem ofChar_of_isWordStart {c : Char} (h : isWordStart c) : ofChar c = letter := by
  rw [ofChar, if_neg (not_isWhiteSpace_of_isWordStart h), if_pos h]

theorem ofChar_of_isDigit {c : Char} (h : c.isDigit) : ofChar c = digit := by
  rw [ofChar, if_neg (not_isWhiteSpace_of_isDigit h), if_neg (not_isWordStart_of_isDigit h),
    if_pos h]

end Opener

/-- The class of the characters with which a pattern begins. -/
def opener : Pattern → Opener
  | blanks => .blank
  | word => .letter
  | number => .digit
  | _ => .sign

/-- The text with which everything begins that the pattern matches. -/
def front : Pattern → List Char
  | lineComment => ['/', '/']
  | blockComment => ['/', '*']
  | quotedText | openQuote => ['"']
  | mark spelling _ => spelling.toList
  | blanks | word | number => []

/-- The pattern matches one text only. -/
def fixed : Pattern → Bool
  | openQuote | mark _ _ => true
  | _ => false

theorem Matches.front_prefix {p : Pattern} {w rest : List Char} (h : p.Matches w rest) :
    p.front <+: w := by
  cases h with
  | blanks | word | integer | float => exact List.nil_prefix
  | @lineComment w => exact ⟨w, rfl⟩
  | @closedComment w => exact ⟨w ++ ['*', '/'], rfl⟩
  | @openComment w => exact ⟨w, rfl⟩
  | @quotedText w => exact ⟨w ++ ['"'], rfl⟩
  | openQuote | mark => exact List.prefix_refl _

theorem Matches.eq_front {p : Pattern} {w rest : List Char} (h : p.Matches w rest)
    (hp : p.fixed) : w = p.front := by
  cases h with
  | openQuote | mark => rfl
  | _ => cases hp

theorem opener_front :
    ∀ p ∈ table, ∀ c ∈ p.front.head?, Opener.ofChar c = p.opener := by
  have h : ∀ p ∈ table, p.front.head?.all (Opener.ofChar · = p.opener) := by decide
  intro p hp c hc
  have hall := h p hp
  rw [Option.mem_def.mp hc] at hall
  exact of_decide_eq_true hall

theorem front_ne_nil : ∀ p ∈ table, p.opener = .sign → p.front ≠ [] := by decide

/-- What a pattern matches begins with a character of its class. -/
theorem Matches.exists_cons {p : Pattern} {w rest : List Char} (h : p.Matches w rest)
    (hp : p ∈ table) : ∃ c v, w = c :: v ∧ Opener.ofChar c = p.opener := by
  by_cases hsign : p.opener = .sign
  · obtain ⟨c, front, hfront⟩ := List.exists_cons_of_ne_nil (front_ne_nil p hp hsign)
    obtain ⟨v, rfl⟩ := h.front_prefix
    exact ⟨c, front ++ v, by rw [hfront, List.cons_append], opener_front p hp c (by simp [hfront])⟩
  · cases h with
    | blanks hne hw =>
        obtain ⟨c, w, rfl⟩ := List.exists_cons_of_ne_nil hne
        exact ⟨c, w, rfl, if_pos (hw c (by simp))⟩
    | @word c w _ hc => exact ⟨c, w, rfl, Opener.ofChar_of_isWordStart hc⟩
    | integer hw =>
        obtain ⟨c, w, rfl⟩ := List.exists_cons_of_ne_nil hw.1
        exact ⟨c, w, rfl, Opener.ofChar_of_isDigit (hw.2 c (by simp))⟩
    | @float whole fraction _ hw =>
        obtain ⟨c, w, rfl⟩ := List.exists_cons_of_ne_nil hw.1
        exact ⟨c, w ++ '.' :: fraction, rfl, Opener.ofChar_of_isDigit (hw.2 c (by simp))⟩
    | _ => exact absurd rfl hsign

/-- Two patterns that match in front of the same text begin with the same class. -/
theorem Matches.opener_eq {p q : Pattern} {w v rest rest' : List Char} (hw : p.Matches w rest)
    (hv : q.Matches v rest') (hp : p ∈ table) (hq : q ∈ table) (h : w ++ rest = v ++ rest') :
    p.opener = q.opener := by
  obtain ⟨c, w, rfl, hc⟩ := hw.exists_cons hp
  obtain ⟨d, v, rfl, hd⟩ := hv.exists_cons hq
  obtain ⟨rfl, -⟩ := List.cons.inj h
  rw [← hc, hd]

/-- Blanks, words and numbers are told apart from all other lexemes by their first
characters. -/
theorem eq_of_opener_eq {p q : Pattern} (h : p.opener = q.opener) (hp : p.opener ≠ .sign) :
    p = q := by
  cases p <;> cases q <;> first | rfl | exact absurd rfl hp | cases h

/-- Of two patterns that begin alike, the later one matches one text only, and that
is no longer than what the earlier one begins with. -/
theorem table_fronts :
    table.Pairwise fun p q => p.front <+: q.front ∨ q.front <+: p.front →
      p.opener = .sign → q.opener = .sign → q.fixed ∧ q.front.length ≤ p.front.length := by
  decide

/-- A pattern stands before the patterns that take less of the same text. -/
theorem table_sorted :
    table.Pairwise fun p q => ∀ cs m n, p.length? cs = some m → q.length? cs = some n → n ≤ m := by
  refine List.Pairwise.imp_of_mem ?_ table_fronts
  intro p q hp hq hfronts cs m n hm hn
  obtain ⟨w, rest, rfl, rfl, hw⟩ := exists_of_length? hm
  obtain ⟨v, rest', heq, rfl, hv⟩ := exists_of_length? hn
  have hopener := hw.opener_eq hv hp hq heq
  by_cases hsign : p.opener = .sign
  · have hpfront := hw.front_prefix.trans (List.prefix_append w rest)
    have hqfront := hv.front_prefix.trans (List.prefix_append v rest')
    rw [← heq] at hqfront
    obtain ⟨hfixed, hle⟩ :=
      hfronts (List.prefix_or_prefix_of_prefix hpfront hqfront) hsign (hopener ▸ hsign)
    calc v.length = q.front.length := by rw [hv.eq_front hfixed]
      _ ≤ p.front.length := hle
      _ ≤ w.length := hw.front_prefix.length_le
  · obtain rfl := eq_of_opener_eq hopener hsign
    rw [hm, Option.some.injEq] at hn
    exact hn.ge

/-! ## The longest lexeme -/

/-- The first pattern that takes something belongs to the table and takes the text
that it matches. -/
theorem exists_of_first? {cs : List Char} {p : Pattern} {n : ℕ} (h : first? cs = some (p, n)) :
    p ∈ table ∧ p.length? cs = some n := by
  obtain ⟨q, hq, hlength⟩ := List.exists_of_findSome?_eq_some h
  obtain ⟨m, hm, hpn⟩ := Option.map_eq_some_iff.mp hlength
  obtain ⟨rfl, rfl⟩ := Prod.mk.inj hpn
  exact ⟨hq, hm⟩

theorem matches_of_first? {lexeme rest : List Char} {p : Pattern}
    (h : first? (lexeme ++ rest) = some (p, lexeme.length)) :
    p ∈ table ∧ p.Matches lexeme rest := by
  obtain ⟨hmem, hlength⟩ := exists_of_first? h
  obtain ⟨w, rest', heq, hw, hmatches⟩ := exists_of_length? hlength
  obtain ⟨rfl, rfl⟩ := List.append_inj heq hw.symm
  exact ⟨hmem, hmatches⟩

/-- No pattern of the table takes more than the first that takes something. -/
theorem length?_le_of_first? {cs : List Char} {p q : Pattern} {m n : ℕ}
    (h : first? cs = some (p, n)) (hq : q ∈ table) (hm : q.length? cs = some m) : m ≤ n := by
  obtain ⟨before, p', after, htable, hp, hbefore⟩ := List.findSome?_eq_some_iff.mp h
  obtain ⟨n', hn, hpn⟩ := Option.map_eq_some_iff.mp hp
  obtain ⟨rfl, rfl⟩ := Prod.mk.inj hpn
  have hsorted := table_sorted
  rw [htable] at hq hsorted
  rcases List.mem_append.mp hq with hq | hq
  · have hnone := hbefore q hq
    rw [hm] at hnone
    cases hnone
  · rcases List.mem_cons.mp hq with rfl | hq
    · rw [hm, Option.some.injEq] at hn
      exact hn.le
    · have hlater := (List.pairwise_cons.mp (List.pairwise_append.mp hsorted).2.1).1
      exact hlater q hq cs n' m hn hm

/-- A block comment is recognised as such wherever its opening mark stands. -/
theorem first?_blockComment (cs : List Char) :
    first? ('/' :: '*' :: cs) = some (blockComment, 2 + blockLength cs) := rfl

/-- The text is matched by some pattern of the table, and nothing longer is that could
stand at its place. -/
structure Longest (lexeme rest : List Char) : Prop where
  matched : ∃ p ∈ table, p.Matches lexeme rest
  length_le : ∀ p ∈ table, ∀ w rest', w ++ rest' = lexeme ++ rest → p.Matches w rest' →
    w.length ≤ lexeme.length

/-- What the first pattern takes is the longest lexeme, unless it is a comment. -/
theorem longest_of_first? {lexeme rest : List Char} {p : Pattern}
    (h : first? (lexeme ++ rest) = some (p, lexeme.length)) (hp : p ≠ blockComment) :
    Longest lexeme rest := by
  obtain ⟨hmem, hmatches⟩ := matches_of_first? h
  refine ⟨⟨p, hmem, hmatches⟩, ?_⟩
  intro q hq w rest' heq hw
  have hcomment : q ≠ blockComment := by
    rintro rfl
    obtain ⟨v, hv⟩ := hw.front_prefix
    rw [← heq, ← hv] at h
    obtain ⟨rfl, -⟩ := Prod.mk.inj (Option.some.inj (h.symm.trans (first?_blockComment _)))
    exact hp rfl
  obtain ⟨n, hn, hle⟩ := hw.exists_length? hcomment
  rw [heq] at hn
  exact hle.trans (length?_le_of_first? h hq hn)

end ScriptFront.Pattern
