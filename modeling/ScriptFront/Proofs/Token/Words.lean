import ScriptFront.Proofs.Token.Runs
import ScriptFront.SymbolTable.Basic

/-!
# The tokens of a source text

Whatever a source text contributes, its tokens stand in front of a single end
mark, and an identifier among them begins as a word does.
-/
namespace ScriptFront

/-- A token that a lexeme can leave: it is no end mark, and if it is an identifier,
its text begins as a word does. -/
structure Token.Lexical (t : Token) : Prop where
  inside : t.kind ≠ .endOfInput
  word : t.kind = .identifier → ∃ c ∈ t.text.toList.head?, Pattern.isWordStart c

/-- A word has a kind of its own if it is reserved, and is an identifier otherwise. -/
theorem TokenKind.ofWord_mem (s : String) : ofWord s ∈ identifier :: reserved.map Prod.snd := by
  unfold ofWord
  cases h : reserved.lookup s with
  | none => exact List.mem_cons_self
  | some kind =>
      obtain ⟨before, after, heq, -⟩ := List.lookup_eq_some_iff.mp h
      exact List.mem_cons_of_mem _ (List.mem_map.mpr ⟨(s, kind), by simp [heq], rfl⟩)

theorem TokenKind.ofWord_eq_identifier {s : String} (h : s ∉ reserved.map Prod.fst) :
    ofWord s = .identifier := by
  have hnone : reserved.lookup s = none := by
    rw [List.lookup_eq_none_iff]
    intro r hr
    rw [bne_iff_ne]
    rintro rfl
    exact h (List.mem_map_of_mem hr)
  rw [ofWord, hnone, Option.getD_none]

theorem TokenKind.ofWord_of_reserved : ∀ r ∈ reserved, ofWord r.1 = r.2 := by decide +kernel

theorem TokenKind.ofWord_ne_endOfInput (s : String) : ofWord s ≠ .endOfInput := by
  have hkinds : ∀ k ∈ identifier :: reserved.map Prod.snd, k ≠ .endOfInput := by decide
  exact hkinds _ (ofWord_mem s)

theorem TokenKind.ofWord_ne_string (s : String) : ofWord s ≠ .string := by
  have hkinds : ∀ k ∈ identifier :: reserved.map Prod.snd, k ≠ .string := by decide
  exact hkinds _ (ofWord_mem s)

namespace Pattern

/-- The kind that the tokens of a mark have. -/
def kind? : Pattern → Option TokenKind
  | mark _ kind => some kind
  | _ => none

theorem kind_of_mark_mem {spelling : String} {kind : TokenKind} (h : mark spelling kind ∈ table) :
    kind ≠ .endOfInput ∧ kind ≠ .identifier ∧ kind ≠ .string := by
  have hkinds : ∀ k ∈ table.filterMap kind?,
      k ≠ .endOfInput ∧ k ≠ .identifier ∧ k ≠ .string := by decide
  exact hkinds kind (List.mem_filterMap.mpr ⟨_, h, rfl⟩)

/-- A number leaves a token of one of two kinds, with the lexeme as its text. -/
theorem eq_of_numberToken {lexeme following : List Char} {place : Position} {t : Token}
    (h : numberToken lexeme following place = .ok t) :
    t = ⟨.float, String.ofList lexeme, place⟩ ∨ t = ⟨.int, String.ofList lexeme, place⟩ := by
  unfold numberToken at h
  split at h
  · cases h
  · dsimp only at h
    split_ifs at h
    · exact .inl (Except.ok.inj h).symm
    · exact .inr (Except.ok.inj h).symm

theorem lexical_numberToken {lexeme following : List Char} {place : Position} {t : Token}
    (h : numberToken lexeme following place = .ok t) : t.Lexical := by
  rcases eq_of_numberToken h with rfl | rfl <;> exact ⟨by simp, by simp⟩

end Pattern

namespace Token

open Source (Scanner)

/-- What a pattern reads is lexical. -/
theorem Originates.lexical {t : Token} (h : t.Originates) : t.Lexical := by
  obtain @⟨p, lexeme, rest, following, place, hp, hmatches, hread⟩ := h
  unfold Pattern.read at hread
  cases p with
  | blanks | lineComment | blockComment | openQuote => cases hread
  | word =>
      cases hread
      cases hmatches with
      | word hc => exact ⟨TokenKind.ofWord_ne_endOfInput _, fun _ => ⟨_, by simp, hc⟩⟩
  | number => exact Pattern.lexical_numberToken (Pattern.read_number_eq_some_iff.mp hread)
  | quotedText =>
      cases hread
      exact ⟨by simp, by simp⟩
  | mark spelling kind =>
      cases hread
      obtain ⟨hend, hword, -⟩ := Pattern.kind_of_mark_mem hp
      exact ⟨hend, fun hk => absurd hk hword⟩

theorem scan_ok {s : Scanner} {tokens : List Token} (h : scan s = .ok tokens) :
    ∃ body place, tokens = body ++ [endOfInput place] ∧ ∀ t ∈ body, t.Lexical := by
  obtain ⟨body, place, rfl, hrun⟩ := exists_run_of_scan h
  exact ⟨body, place, rfl, fun t ht => (hrun.originates t ht).lexical⟩

/-- The tokens of a source text stand in front of an end mark. -/
theorem ofSource_ok {source : String} {tokens : List Token} (h : ofSource source = .ok tokens) :
    ∃ body place, tokens = body ++ [endOfInput place] ∧ ∀ t ∈ body, t.Lexical :=
  scan_ok h

/-- No word of a source is the name of the result of a function. -/
theorem Lexical.text_ne_returnValueName {t : Token} (h : t.Lexical) (hk : t.kind = .identifier) :
    t.text ≠ Symbol.returnValueName := by
  intro ht
  obtain ⟨c, hc, hword⟩ := h.word hk
  have hhead : Symbol.returnValueName.toList.head? = some ':' := by decide
  rw [ht, hhead] at hc
  obtain rfl := Option.some.inj hc
  exact absurd hword (by decide)

end Token

end ScriptFront
