import ScriptFront.Proofs.Token.Spelling

/-!
# String literals

A string ends at the first quote behind its opening quote that no backslash protects. A
backslash protects the next character, which cannot be a line feed: a string in which a
backslash stands at the end of a line counts as one that is not closed, wherever its
closing quote is.
-/
namespace ScriptFront

open Source (Scanner)

/-! ## Protected characters -/

/-- No quote stands in the text without protection. A backslash protects the next
character, of which `p` holds. -/
inductive Pattern.Guarded (p : Char → Prop) : List Char → Prop
  | nil : Guarded p []
  | escape {c : Char} {cs : List Char} : p c → Guarded p cs → Guarded p ('\\' :: c :: cs)
  | plain {c : Char} {cs : List Char} : c ≠ '"' → c ≠ '\\' → Guarded p cs → Guarded p (c :: cs)

/-- Between the quotes of a string no backslash protects a line feed. -/
theorem Pattern.quotable_iff {body : List Char} : Quotable body ↔ Guarded (· ≠ '\n') body := by
  constructor
  · intro h
    induction h with
    | nil => exact .nil
    | escape hc _ ih => exact .escape hc ih
    | plain hq hb _ ih => exact .plain hq hb ih
  · intro h
    induction h with
    | nil => exact .nil
    | escape hc _ ih => exact .escape hc ih
    | plain hq hb _ ih => exact .plain hq hb ih

/-- A quote behind which no string is closed is a lexeme on its own. -/
theorem Pattern.first?_openQuote {cs : List Char}
    (h : ¬ ∃ body rest, cs = body ++ '"' :: rest ∧ Quotable body) :
    first? ('"' :: cs) = some (openQuote, 1) := by
  have hnone : stringLength? cs = none := by
    rw [Option.eq_none_iff_forall_ne_some]
    intro n hn
    obtain ⟨body, rest, heq, -, hbody⟩ := exists_of_stringLength? hn
    exact h ⟨body, rest, heq, hbody⟩
  have hlength : quotedText.length? ('"' :: cs) = none := by
    rw [length?, hnone]
    rfl
  have hbefore : ∀ p ∈ [blanks, lineComment, blockComment, word, number, quotedText],
      (p.length? ('"' :: cs)).map (p, ·) = none := by
    simp only [List.forall_mem_cons, List.not_mem_nil, false_imp_iff, implies_true, and_true]
    exact ⟨rfl, rfl, rfl, rfl, rfl, by rw [hlength, Option.map_none]⟩
  exact List.findSome?_eq_some_iff.mpr ⟨_, openQuote, _, rfl, rfl, hbefore⟩

namespace Token

/-! ## Strings -/

variable {rest : List Char} {place : Position}

theorem scan_openQuote
    (h : ¬ ∃ body after, rest = body ++ '"' :: after ∧ Pattern.Quotable body) :
    scan ⟨'"' :: rest, place⟩ = .error ⟨.unterminatedString, place⟩ := by
  have hstep : scan ⟨['"'] ++ rest, place⟩ = _ :=
    scan_of_first? (List.cons_ne_nil _ _) (Pattern.first?_openQuote h)
  exact hstep

/-- A string ends at the first quote that no backslash protects, provided that no
backslash protects a line feed, and its token has the value that the escapes stand for.
A quote behind which no such string ends is the place of a fault, and no other quote is. -/
theorem string_ends_at_quote {source : String} {before : List Token}
    (hreads : ReadsUpTo (Scanner.ofSource source) before ⟨'"' :: rest, place⟩) :
    (∀ body after, rest = body ++ '"' :: after → Pattern.Guarded (· ≠ '\n') body →
        ∃ value, Pattern.Escaped body value ∧
          ReadsUpTo (Scanner.ofSource source) (before ++ [⟨.string, String.ofList value, place⟩])
            ⟨after, place.afterAll ('"' :: (body ++ ['"']))⟩) ∧
      (ofSource source = .error ⟨.unterminatedString, place⟩ ↔
        ¬ ∃ body after, rest = body ++ '"' :: after ∧ Pattern.Guarded (· ≠ '\n') body) := by
  have hclosed : ∀ body after, rest = body ++ '"' :: after → Pattern.Guarded (· ≠ '\n') body →
      ∃ value, Pattern.Escaped body value ∧
        ReadsUpTo (Scanner.ofSource source) (before ++ [⟨.string, String.ofList value, place⟩])
          ⟨after, place.afterAll ('"' :: (body ++ ['"']))⟩ := by
    rintro body after rfl hbody
    have hescaped := (Pattern.quotable_iff.mpr hbody).escaped
    have hstring := readsUpTo_string hescaped after place
    refine ⟨_, hescaped, hreads.trans ?_⟩
    simpa using hstring
  refine ⟨hclosed, ?_, ?_⟩
  · rintro herror ⟨body, after, hrest, hbody⟩
    obtain ⟨value, -, hrun⟩ := hclosed body after hrest hbody
    rw [ofSource, hrun.scan_eq_error_iff] at herror
    have hlt : place < place := place_lt_of_scan (List.cons_ne_nil _ _) herror
    exact Position.lt_irrefl place hlt
  · intro hopen
    simp only [← Pattern.quotable_iff] at hopen
    rw [ofSource, hreads.scan_eq_error_iff]
    exact scan_openQuote hopen

/-- A backslash that is protected itself protects nothing. -/
theorem string_ends_at_quote_of_backslashes :
    let source := "s \"\\\\\\n\" \""
    let before : List Token := [⟨.identifier, "s", ⟨1, 1⟩⟩]
    let body := ['\\', '\\', '\\', 'n']
    ReadsUpTo (Scanner.ofSource source) before ⟨'"' :: (body ++ ['"', ' ', '"']), ⟨1, 3⟩⟩ ∧
      Pattern.Guarded (· ≠ '\n') body ∧
      (∃ value, Pattern.Escaped body value ∧ ReadsUpTo (Scanner.ofSource source)
        (before ++ [⟨.string, String.ofList value, ⟨1, 3⟩⟩]) ⟨[' ', '"'], ⟨1, 9⟩⟩) ∧
      ofSource source ≠ .error ⟨.unterminatedString, ⟨1, 3⟩⟩ := by
  intro source before body
  have hreads : ReadsUpTo (Scanner.ofSource source) before
      ⟨'"' :: (body ++ ['"', ' ', '"']), ⟨1, 3⟩⟩ := by
    have htext : source.toList = ['s'] ++ ([' '] ++ ('"' :: (body ++ ['"', ' ', '"']))) := by
      decide +kernel
    rw [Scanner.ofSource, htext]
    exact .token (p := .word) (List.cons_ne_nil _ _) (by decide) rfl
      (.skip (p := .blanks) (List.cons_ne_nil _ _) (by decide) rfl .here)
  have hbody : Pattern.Guarded (· ≠ '\n') body :=
    .escape (by decide) (.escape (by decide) .nil)
  obtain ⟨hclosed, hfault⟩ := string_ends_at_quote hreads
  exact ⟨hreads, hbody, hclosed body _ rfl hbody,
    fun herror => hfault.mp herror ⟨body, _, rfl, hbody⟩⟩

/-- Behind a backslash that protects a line feed the closing quote is not found. -/
theorem unterminatedString_of_protected_lineFeed :
    let source := "\"a\\\nb\""
    let body := ['a', '\\', '\n', 'b']
    ReadsUpTo (Scanner.ofSource source) [] ⟨'"' :: (body ++ ['"']), Position.start⟩ ∧
      Pattern.Guarded (fun _ => True) body ∧
      ofSource source = .error ⟨.unterminatedString, Position.start⟩ := by
  intro source body
  have htext : source.toList = '"' :: (body ++ ['"']) := by decide +kernel
  have hbody : Pattern.Guarded (fun _ => True) body :=
    .plain (by decide) (by decide) (.escape trivial (.plain (by decide) (by decide) .nil))
  refine ⟨?_, hbody, by decide +kernel⟩
  rw [Scanner.ofSource, htext]
  exact .here

end Token

end ScriptFront
