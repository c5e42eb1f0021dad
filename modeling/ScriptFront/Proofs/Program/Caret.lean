import ScriptFront.Proofs.Diagnostic.Caret
import ScriptFront.Proofs.Program.SameWords
import ScriptFront.Proofs.Program.Stages

/-!
# Where the caret of a compilation points

A diagnostic of a compilation that has tokens stands at one of them. Shown with these
tokens, it points at that token, unless a string that is displayed in its line holds a
line feed: then the line of the program is broken, and the caret counts characters of
more than one line.
-/
namespace ScriptFront

theorem Laid.display_ne_empty {before rest : List Char} {tokens : List Token}
    (h : Laid before rest tokens) : ∀ t ∈ tokens, t.display ≠ "" := by
  induction h with
  | finish =>
      intro t ht
      rw [List.mem_singleton.mp ht]
      exact (by decide : "EOF" ≠ "")
  | @token _ _ lexeme _ t _ _ hwritten hlongest _ _ ih =>
      refine List.forall_mem_cons.mpr ⟨?_, ih⟩
      unfold Token.display
      cases hwritten with
      | itself _ hstring =>
          rw [if_neg hstring]
          exact fun htext => hlongest.ne_nil (by rw [htext]; rfl)
      | quoted hstring _ =>
          rw [if_pos hstring, String.append_assoc]
          exact MarkedLine.append_ne_empty (by decide) _

theorem Diagnostic.Alike.exists_token {R D : Token → Token → Prop} {d d' : Diagnostic}
    (h : d.Alike R D d') : ∃ t, (∃ t', R t t') ∧ t.position = d.position := by
  cases h with
  | intro ht _ => exact ⟨_, ⟨_, ht⟩, rfl⟩

namespace Compilation

open Text (OneLine feeds)

variable {source file : String} {tokens : List Token} {d : Diagnostic}

theorem exists_token_of_diagnostic (h : Token.ofSource source = .ok tokens)
    (hd : d ∈ (ofSource source).diagnostics) :
    ∃ t ∈ tokens, t.position = d.position ∧
      (t.kind = .endOfInput → t = .endOfInput d.position) := by
  have halike : d.Alike (Token.SameIndex tokens tokens) (Token.SameDeclaration tokens tokens) d :=
    List.forall₂_same.mp (alike_of_words h h rfl).diagnostics d hd
  obtain ⟨t, ⟨t', i, hi, -⟩, hposition⟩ := halike.exists_token
  obtain ⟨body, place, rfl, hbody⟩ := Token.ofSource_ok h
  refine ⟨t, List.mem_of_getElem? hi, hposition, fun hk => ?_⟩
  rcases List.mem_append.mp (List.mem_of_getElem? hi) with ht | ht
  · exact absurd hk (hbody t ht).inside
  · obtain rfl := List.mem_singleton.mp ht
    rw [← hposition]
    rfl

/-- Each diagnostic of a compilation that has tokens is shown with them, at one of them. -/
theorem shownWith_of_mem (h : Token.ofSource source = .ok tokens) (hfile : OneLine file)
    (hd : d ∈ (ofSource source).diagnostics) :
    d.ShownWith tokens (d.renderFromTokens file tokens) := by
  have hlaid : Laid [] source.toList tokens := Token.laid_of_scan rfl h
  obtain ⟨t, ht, hposition, hend⟩ := exists_token_of_diagnostic h hd
  obtain ⟨stage, -, hfits⟩ := (ofSource_of_tokens h).2 d hd
  exact Diagnostic.shownWith hfits.texts hfile hlaid.display_ne_empty hlaid.increasing ht hposition
    hend

/-- A diagnostic that is not lexical is shown in six lines and one more for each line feed
that is displayed. If there is none, the caret stands below its token. -/
theorem render_shownWith (hfile : OneLine file) {i : ℕ}
    (hd : (ofSource source).diagnostics[i]? = some d) (hlexical : ¬ d.fault.isLexical) :
    ∃ text, ((ofSource source).render source file)[i]? = some text ∧
      d.ShownWith (ofSource source).tokens text := by
  have hmem := List.mem_of_getElem? hd
  cases h : Token.ofSource source with
  | error e =>
      rw [ofSource_of_lexing h, failed, List.mem_singleton] at hmem
      subst hmem
      exact absurd ((Fault.isLexical_iff _).mpr (Token.stage?_of_scan h)) hlexical
  | ok tokens =>
      have hshown := shownWith_of_mem h hfile hmem
      refine ⟨_, ?_, (ofSource_of_tokens h).1 ▸ hshown⟩
      unfold render
      rw [List.getElem?_map, hd, Option.map_some, if_neg hlexical, (ofSource_of_tokens h).1]

/-- The caret below a declaration with an initializer of another type. -/
theorem render_shownWith_of_string :
    let source := "void main() \x7b string s = \"ab\"; int x = s; \x7d"
    let d : Diagnostic := ⟨.typeMatchError "int" "string", ⟨1, 32⟩⟩
    OneLine "main.sc" ∧ (ofSource source).diagnostics[0]? = some d ∧ ¬ d.fault.isLexical ∧
      ∃ text, ((ofSource source).render source "main.sc")[0]? = some text ∧
        d.ShownWith (ofSource source).tokens text := by
  intro source d
  have hfile : OneLine "main.sc" := by decide
  have hds : (ofSource source).diagnostics = [d] := by decide +kernel
  have hd : (ofSource source).diagnostics[0]? = some d := congrArg (·[0]?) hds
  have hlexical : ¬ d.fault.isLexical := by decide
  exact ⟨hfile, hd, hlexical, render_shownWith hfile hd hlexical⟩

/-- With a line feed in a displayed string there are seven lines, and the caret is behind
the end of the last line of the program. -/
theorem render_of_lineFeed :
    let source := "void main() \x7b string s = \"a\\nb\"; int x = s; \x7d"
    let d : Diagnostic := ⟨.typeMatchError "int" "string", ⟨1, 34⟩⟩
    (ofSource source).diagnostics = [d] ∧ ¬ d.fault.isLexical ∧ OneLine "main.sc" ∧
      ∃ text, (ofSource source).render source "main.sc" = [text] ∧ feeds text = 7 ∧
        text = Text.ofLines ["Error: TypeMatchError", "-> main.sc:1:34",
          "attempting to assign a 'string' to a variable of type 'int'", "  |",
          "1 | void main ( ) \x7b string s = \"a", "b\" ; int x = s ; \x7d",
          "  | -----------------------------------^"] := by
  intro source d
  have hds : (ofSource source).diagnostics = [d] := by decide +kernel
  have hfile : OneLine "main.sc" := by decide
  refine ⟨hds, by decide, hfile, _, ?_, ?_, rfl⟩
  · decide +kernel
  · decide +kernel

end Compilation

end ScriptFront
