import Mathlib
import ScriptFront.Proofs.Program.Caret
import ScriptFront.Proofs.Token.Culprits

/-!
# How large the numbers of a compilation get

Positions, and the widths of the fields below a diagnostic, are numbers without an upper limit.
Where the source has fewer characters than the greatest word of 32 bits, each line and each
column fits into such a word. A caret stands at most directly behind its line, so that in lines
that are shorter than the greatest word of 16 bits the width of each field fits into a word of
that size.
-/
namespace ScriptFront

/-- The tokens of a text that is not too long are at places that fit into words. -/
theorem Laid.position_fits {before rest : List Char} {tokens : List Token}
    (h : Laid before rest tokens) (hlength : (before ++ rest).length + 1 < UInt32.size) :
    ∀ t ∈ tokens, t.position.Fits := by
  intro t ht
  obtain ⟨w, v, rfl, hposition⟩ := h.exists_position t ht
  rw [← List.append_assoc, List.length_append] at hlength
  rw [hposition]
  apply Position.fits_behind
  omega

theorem Position.Fits.length_line {p : Position} (h : p.Fits) : (toString p.line).length ≤ 10 := by
  rw [Nat.toString_eq_repr]
  exact Nat.repr_length _ _ (by decide) (h.1.trans (by decide))

namespace Compilation

variable {source : String} {d : Diagnostic}

/-- What a compilation of a text that is not too long says about places fits into words. -/
theorem positions_fit (h : source.length + 1 < UInt32.size) :
    (∀ t ∈ (ofSource source).tokens, t.position.Fits) ∧
      ∀ d ∈ (ofSource source).diagnostics, d.position.Fits := by
  rw [← String.length_toList] at h
  cases hsource : Token.ofSource source with
  | error e =>
      obtain ⟨before, culprit, htext, hposition, -⟩ := Token.exists_culprit_of_scan hsource
      rw [ofSource_of_lexing hsource]
      refine ⟨nofun, fun d hd => ?_⟩
      obtain rfl := List.mem_singleton.mp hd
      rw [htext, List.length_append] at h
      rw [hposition]
      apply Position.fits_behind
      omega
  | ok tokens =>
      have hlaid : Laid [] source.toList tokens := Token.laid_of_scan rfl hsource
      have htokens : ∀ t ∈ tokens, t.position.Fits := hlaid.position_fits h
      refine ⟨(ofSource_of_tokens hsource).1.symm ▸ htokens, fun d hd => ?_⟩
      obtain ⟨t, ht, hposition, -⟩ := exists_token_of_diagnostic hsource hd
      exact hposition ▸ htokens t ht

/-- The line that is shown with a diagnostic. -/
def markedLine (c : Compilation) (source : String) (d : Diagnostic) : MarkedLine :=
  if d.fault.isLexical then .ofSource source d.position else .ofTokens c.tokens d.position

theorem render_eq_map (c : Compilation) (source file : String) :
    c.render source file = c.diagnostics.map fun d => d.render file (c.markedLine source d) := by
  refine List.map_congr_left fun d _ => ?_
  unfold markedLine
  split_ifs <;> rfl

/-- No caret is farther right than directly behind its line. -/
theorem caret_le (hd : d ∈ (ofSource source).diagnostics) :
    ((ofSource source).markedLine source d).caret ≤
      ((ofSource source).markedLine source d).text.length := by
  unfold markedLine
  split_ifs with hlexical
  · cases hsource : Token.ofSource source with
    | error e =>
        obtain ⟨before, culprit, htext, hposition, hblames⟩ := Token.exists_culprit_of_scan hsource
        obtain ⟨c, after, rfl, hc⟩ := hblames.exists_cons
        rw [ofSource_of_lexing hsource] at hd
        obtain rfl := List.mem_singleton.mp hd
        have hmarked := Token.marked?_behind htext hc
        rw [← hposition] at hmarked
        obtain ⟨hlt, -⟩ := List.getElem?_eq_some_iff.mp hmarked
        rw [String.length_toList] at hlt
        exact hlt.le
    | ok tokens =>
        obtain ⟨stage, hstage, hfits⟩ := (ofSource_of_tokens hsource).2 d hd
        rw [Fault.isLexical_iff, hfits.stage] at hlexical
        exact absurd (Option.some.inj hlexical) hstage
  · exact MarkedLine.caret_ofTokens_le _ _

/-- The fields below a diagnostic: the rule as wide as the number of the line needs, and the
caret behind as many characters as stand before it. -/
theorem fields_fit (h : source.length + 1 < UInt32.size)
    (hd : d ∈ (ofSource source).diagnostics)
    (hline : ((ofSource source).markedLine source d).text.length + 1 < UInt16.size) :
    (toString d.position.line).length + 2 < UInt16.size ∧
      ((ofSource source).markedLine source d).caret + 1 < UInt16.size := by
  have hsize : UInt16.size = 65536 := rfl
  have hnumber := ((positions_fit h).2 d hd).length_line
  have hcaret := caret_le hd
  omega

end Compilation

end ScriptFront
