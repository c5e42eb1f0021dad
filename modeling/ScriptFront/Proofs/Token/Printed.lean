import ScriptFront.Proofs.Token.Spelling

/-!
# Tokens with gaps between them

Tokens are written one behind the other, each in any form that it has, and behind each
comes a gap of blanks and comments that begins with a blank. Reading such a text gives
back the same kinds and texts, whatever the gaps are.
-/
namespace ScriptFront

variable {rest : List Char} {place : Position}

/-! ## The texts of each kind -/

/-- A text that a token of a kind can have. A string can have any text, and a kind that is
reserved or a mark has its spellings. -/
inductive TokenKind.HasText : TokenKind → String → Prop
  | identifier {c : Char} {cs : List Char} {text : String} : Pattern.isWordStart c →
      (∀ d ∈ cs, Pattern.isWordPart d) → text.toList = c :: cs →
      text ∉ reserved.map Prod.fst → HasText identifier text
  | reserved {k : TokenKind} {text : String} : (text, k) ∈ reserved → HasText k text
  | mark {k : TokenKind} {text : String} : Pattern.mark text k ∈ Pattern.table → HasText k text
  | int {text : String} : Numeral.IsDigits text.toList →
      Numeral.decimal text.toList < Numeral.limit → HasText int text
  | float {whole fraction : List Char} {text : String} : Numeral.IsDigits whole →
      Numeral.IsDigits fraction → text.toList = whole ++ '.' :: fraction → HasText float text
  | string {text : String} : HasText string text

theorem TokenKind.HasText.legal {k : TokenKind} {text : String} (h : k.HasText text) :
    (⟨k, text⟩ : Word).Legal := by
  cases h with
  | identifier hc hcs htext hreserved =>
      rw [← ofWord_eq_identifier hreserved]
      exact .word hc hcs htext
  | reserved hmem => exact .reserved hmem (ofWord_of_reserved _ hmem)
  | mark hmem => exact .mark hmem
  | int hdigits hlimit => exact .int hdigits hlimit
  | float hwhole hfraction htext => exact .float hwhole hfraction htext
  | string => exact .string

/-! ## Reading gaps and lexemes -/

/-- Something between two lexemes leaves nothing. -/
theorem Filler.scan {w : List Char} (h : Filler w rest) :
    Token.scan ⟨w ++ rest, place⟩ = Token.scan ⟨rest, place.afterAll w⟩ := by
  cases h with
  | blanks _ hw => exact Word.scan_blanks hw
  | lineComment hw hrest =>
      exact Word.scan_of_skip (List.cons_ne_nil _ _) (Pattern.first?_lineComment hw hrest) rfl
  | @blockComment w _ hw =>
      refine Word.scan_of_skip (p := .blockComment) (List.cons_ne_nil _ _) ?_ rfl
      rw [List.cons_append, List.cons_append, Pattern.first?_blockComment,
        Pattern.blockLength_of_closed hw]
      simp only [Pattern.closingMark, List.length_cons, List.length_append, List.length_nil]
      rw [Nat.add_comm]
  | @openComment w hw =>
      refine Word.scan_of_skip (p := .blockComment) (List.cons_ne_nil _ _) ?_ rfl
      rw [List.append_nil, Pattern.first?_blockComment, Pattern.blockLength_of_unclosed hw,
        Nat.add_comm]
      rfl

theorem Gap.scan {gap : List Char} (h : Gap gap rest) :
    Token.scan ⟨gap ++ rest, place⟩ = Token.scan ⟨rest, place.afterAll gap⟩ := by
  induction h generalizing place with
  | nil => rfl
  | cons hw _ ih => rw [List.append_assoc, hw.scan, ih, Position.afterAll_append]

/-- A token with a legal word is read back from each of its forms. -/
theorem Token.WrittenAs.scan {t : Token} {lexeme : List Char} (h : t.WrittenAs lexeme)
    (hlegal : t.word.Legal) (hrest : ∀ c ∈ rest.head?, Text.isWhiteSpace c) :
    Token.scan ⟨lexeme ++ rest, place⟩ =
      (⟨t.kind, t.text, place⟩ :: ·) <$> Token.scan ⟨rest, place.afterAll lexeme⟩ := by
  cases h with
  | itself _ hstring =>
      have hspelling : t.word.spelling = t.text.toList := Word.spelling_eq hstring
      rw [← hspelling]
      exact hlegal.scan hrest
  | quoted hstring hescaped =>
      have hrun := readsUpTo_string hescaped rest place
      rw [String.ofList_toList, ← hstring] at hrun
      exact hrun.scan_eq

/-! ## Reading tokens -/

/-- `Printed cs tokens`: the text consists of the tokens, each in some form and with a gap behind
it that begins with a blank. -/
inductive Printed : List Char → List Token → Prop
  | nil : Printed [] []
  | cons {lexeme gap rest : List Char} {t : Token} {tokens : List Token} :
      t.WrittenAs lexeme → (∃ c ∈ gap.head?, Text.isWhiteSpace c) → Gap gap rest →
      Printed rest tokens → Printed (lexeme ++ (gap ++ rest)) (t :: tokens)

/-- Tokens that are printed are read back, apart from their places. -/
theorem Printed.readsAs {cs : List Char} {tokens : List Token} (h : Printed cs tokens)
    (hlegal : ∀ t ∈ tokens, t.word.Legal) : Word.ReadsAs cs (tokens.map Token.word) := by
  induction h with
  | nil =>
      intro place
      exact ⟨[], place, by rw [Token.scan]; rfl, rfl⟩
  | @cons lexeme gap rest t tokens hwritten hgap hrest _ ih =>
      intro place
      obtain ⟨ht, htokens⟩ := List.forall_mem_cons.mp hlegal
      obtain ⟨body, last, hscan, hbody⟩ := ih htokens ((place.afterAll lexeme).afterAll gap)
      have hblank : ∀ c ∈ (gap ++ rest).head?, Text.isWhiteSpace c := by
        obtain ⟨c, hc, hblank⟩ := hgap
        obtain ⟨gap, rfl⟩ := List.head?_eq_some_iff.mp hc
        rintro _ ⟨⟩
        exact hblank
      refine ⟨⟨t.kind, t.text, place⟩ :: body, last, ?_, ?_⟩
      · rw [hwritten.scan ht hblank, hrest.scan, hscan]
        rfl
      · rw [List.map_cons, List.map_cons, hbody]
        rfl

/-- The source of tokens that are printed has the same tokens, and an end mark. -/
theorem Token.ofSource_of_printed {source : String} {tokens : List Token}
    (htexts : ∀ t ∈ tokens, t.kind.HasText t.text) (h : Printed source.toList tokens) :
    ∃ body last, ofSource source = .ok (body ++ [endOfInput last]) ∧
      body.map word = tokens.map word :=
  h.readsAs (fun t ht => (htexts t ht).legal) Position.start

/-- A block comment behind a name, and a string with a line feed that is not escaped. -/
theorem Token.ofSource_of_printed_comments :
    let source := "x /*y*/\"\n\\\"\"\t//z\n"
    let tokens : List Token := [⟨.identifier, "x", ⟨1, 1⟩⟩, ⟨.string, "\n\"", ⟨1, 2⟩⟩]
    (∀ t ∈ tokens, t.kind.HasText t.text) ∧ Printed source.toList tokens ∧
      ∃ body last, ofSource source = .ok (body ++ [endOfInput last]) ∧
        body.map word = tokens.map word := by
  intro source tokens
  have htexts : ∀ t ∈ tokens, t.kind.HasText t.text := by
    simp only [tokens, List.forall_mem_cons, List.not_mem_nil, false_imp_iff, implies_true,
      and_true]
    exact ⟨@TokenKind.HasText.identifier 'x' [] "x" rfl nofun rfl (by decide), .string⟩
  have hname : WrittenAs ⟨.identifier, "x", ⟨1, 1⟩⟩ ['x'] := .itself nofun nofun
  have hescaped : Pattern.Escaped ['\n', '\\', '"'] ['\n', '"'] :=
    .plain (by decide) (by decide) (.escape (by decide) .nil)
  have hstring : WrittenAs ⟨.string, "\n\"", ⟨1, 2⟩⟩ ('"' :: (['\n', '\\', '"'] ++ ['"'])) :=
    .quoted rfl hescaped
  have hblank (rest : List Char) (c : Char) (h : Text.isWhiteSpace c) : Filler [c] rest :=
    .blanks (List.cons_ne_nil c []) (List.forall_mem_singleton.mpr h)
  have hfirst (rest : List Char) : Gap [' ', '/', '*', 'y', '*', '/'] rest :=
    .cons (hblank _ ' ' rfl) (.cons (.blockComment (w := ['y']) (by decide)) .nil)
  have hsecond : Gap ['\t', '/', '/', 'z', '\n'] [] :=
    .cons (hblank _ '\t' rfl) (.cons (w := ['/', '/', 'z']) (.lineComment (w := ['z'])
      (by simp) (by simp)) (.cons (hblank _ '\n' rfl) .nil))
  have hprinted : Printed source.toList tokens := by
    have htext : source.toList = ['x'] ++ ([' ', '/', '*', 'y', '*', '/'] ++
        (['"', '\n', '\\', '"', '"'] ++ (['\t', '/', '/', 'z', '\n'] ++ []))) := by
      decide +kernel
    rw [htext]
    exact .cons hname ⟨' ', rfl, rfl⟩ (hfirst _) (.cons hstring ⟨'\t', rfl, rfl⟩ hsecond .nil)
  exact ⟨htexts, hprinted, ofSource_of_printed htexts hprinted⟩

end ScriptFront
