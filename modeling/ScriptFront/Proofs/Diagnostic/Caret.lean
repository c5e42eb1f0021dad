import Mathlib.Algebra.GroupWithZero.Nat
import ScriptFront.Diagnostic.Rendering
import ScriptFront.Proofs.Diagnostic.OneLine
import ScriptFront.Proofs.Source.Places

/-!
# The caret below a line of tokens

A diagnostic is shown in six parts, each ended by a line feed. Only the line of the
program can hold further ones, since a displayed string shows its value as it is. Where
it holds none, the caret in the last line stands below the first character of the token
at the place of the diagnostic, or behind the line if no token of the line begins there.
-/
namespace ScriptFront

/-! ## Lines of a text -/

namespace Text

/-- The text of the lines, each of which is ended by a line feed. -/
def ofLines (lines : List String) : String := String.join (lines.map (· ++ "\n"))

def feeds (s : String) : ℕ := s.toList.count '\n'

theorem feeds_append (s s' : String) : feeds (s ++ s') = feeds s + feeds s' := by
  unfold feeds
  rw [String.toList_append, List.count_append]

theorem feeds_eq_zero_iff {s : String} : feeds s = 0 ↔ OneLine s := List.count_eq_zero

theorem feeds_join (ss : List String) : feeds (String.join ss) = (ss.map feeds).sum := by
  induction ss with
  | nil => rfl
  | cons s ss ih => rw [String.join_cons, feeds_append, ih, List.map_cons, List.sum_cons]

theorem feeds_ofLines (lines : List String) :
    feeds (ofLines lines) = lines.length + (lines.map feeds).sum := by
  induction lines with
  | nil => rfl
  | cons l ls ih =>
      have hcons : ofLines (l :: ls) = l ++ "\n" ++ ofLines ls := String.join_cons
      have hfeed : feeds "\n" = 1 := by decide
      rw [hcons, feeds_append, feeds_append, ih, hfeed, List.length_cons, List.map_cons,
        List.sum_cons]
      omega

theorem feeds_blank : feeds " " = 0 := by decide

theorem length_padLeft_caret (n : ℕ) :
    ∃ mark : String, padLeft (n + 1) '-' "^" = mark ++ "^" ∧ mark.length = n ∧
      '^' ∉ mark.toList := by
  refine ⟨String.ofList (List.replicate n '-'), rfl, by simp, ?_⟩
  rw [String.toList_ofList, List.mem_replicate]
  exact fun h => absurd h.2 (by decide)

end Text

/-! ## The line of a position -/

namespace MarkedLine

variable {p : Position} {ts tokens before after : List Token} {t : Token}

/-- The tokens that are displayed in the line of a position. -/
def displayed (tokens : List Token) (p : Position) : List Token :=
  tokens.filter fun t => t.position.line = p.line ∧ t.kind ≠ .endOfInput

/-- The tokens with a blank behind each. -/
def lead (ts : List Token) : String := String.join (ts.map fun t => t.display ++ " ")

/-- The tokens with a blank in front of each. -/
def trail (ts : List Token) : String := String.join (ts.map fun t => " " ++ t.display)

/-- The tokens with a blank between two of them. -/
def spaced : List Token → String
  | [] => ""
  | t :: ts => t.display ++ trail ts

theorem trail_cons (t : Token) (ts : List Token) :
    trail (t :: ts) = " " ++ t.display ++ trail ts := by
  unfold trail
  rw [List.map_cons, String.join_cons]

theorem lead_cons (t : Token) (ts : List Token) :
    lead (t :: ts) = t.display ++ " " ++ lead ts := by
  unfold lead
  rw [List.map_cons, String.join_cons]

theorem trail_append (ts us : List Token) : trail (ts ++ us) = trail ts ++ trail us := by
  unfold trail
  rw [List.map_append, String.join_append]

/-- A blank may be counted with the token behind it or with the one in front of it. -/
theorem trail_blank (ts : List Token) : trail ts ++ " " = " " ++ lead ts := by
  induction ts with
  | nil => rfl
  | cons t ts ih =>
      rw [trail_cons, lead_cons, String.append_assoc, ih]
      simp only [String.append_assoc]

theorem spaced_append_cons (ts us : List Token) (t : Token) :
    spaced (ts ++ t :: us) = lead ts ++ t.display ++ trail us := by
  cases ts with
  | nil => rfl
  | cons s ts =>
      have hblank := congrArg (s.display ++ · ++ (t.display ++ trail us)) (trail_blank ts)
      rw [List.cons_append, spaced, trail_append, trail_cons, lead_cons]
      simpa only [String.append_assoc] using hblank

theorem feeds_trail (ts : List Token) :
    Text.feeds (trail ts) = (ts.map fun t => Text.feeds t.display).sum := by
  unfold trail
  rw [Text.feeds_join, List.map_map]
  simp only [Function.comp_def, Text.feeds_append, Text.feeds_blank, Nat.zero_add]

theorem feeds_spaced (ts : List Token) :
    Text.feeds (spaced ts) = (ts.map fun t => Text.feeds t.display).sum := by
  cases ts with
  | nil => rfl
  | cons t ts => rw [spaced, Text.feeds_append, feeds_trail, List.map_cons, List.sum_cons]

theorem append_ne_empty {s : String} (h : s ≠ "") (s' : String) : s ++ s' ≠ "" :=
  fun hs => h (String.append_eq_empty_iff.mp hs).1

theorem addToken_text {line : String × Option ℕ} (hline : line.1 ≠ "") :
    (addToken p line t).1 = line.1 ++ " " ++ t.display := by
  have hne : ¬ line.1.isEmpty = true := by rwa [String.isEmpty_iff]
  unfold addToken
  rw [if_neg hne]

theorem addToken_mark {line : String × Option ℕ} (ht : t.position = p) :
    (addToken p line t).2 =
      some (if line.1.isEmpty then line.1 else line.1 ++ " ").length := if_pos ht

/-- Behind a text that is not empty, the tokens stand with a blank in front of each. -/
theorem foldl_addToken_text {line : String × Option ℕ} (hline : line.1 ≠ "") :
    (ts.foldl (addToken p) line).1 = line.1 ++ trail ts := by
  induction ts generalizing line with
  | nil => simp [trail]
  | cons t ts ih =>
      have hadded : (addToken p line t).1 ≠ "" := by
        rw [addToken_text hline, String.append_assoc]
        exact append_ne_empty hline _
      rw [List.foldl_cons, ih hadded, addToken_text hline, trail_cons]
      simp only [String.append_assoc]

theorem foldl_addToken_spaced (hts : ∀ t ∈ ts, t.display ≠ "") :
    (ts.foldl (addToken p) ("", none)).1 = spaced ts := by
  cases ts with
  | nil => rfl
  | cons t ts =>
      have hadd : (addToken p ("", none) t).1 = t.display := String.empty_append
      rw [List.foldl_cons, foldl_addToken_text, hadd, spaced]
      rw [hadd]
      exact hts t List.mem_cons_self

theorem foldl_addToken_mark {line : String × Option ℕ} (hts : ∀ t ∈ ts, t.position ≠ p) :
    (ts.foldl (addToken p) line).2 = line.2 := by
  induction ts generalizing line with
  | nil => rfl
  | cons t ts ih =>
      rw [List.foldl_cons, ih fun u hu => hts u (List.mem_cons_of_mem _ hu)]
      exact if_neg (hts t List.mem_cons_self)

theorem text_of_spaced (hts : ∀ t ∈ ts, t.display ≠ "") :
    (if (spaced ts).isEmpty then spaced ts else spaced ts ++ " ") = lead ts := by
  cases ts with
  | nil => rfl
  | cons t ts =>
      have hne : ¬ (t.display ++ trail ts).isEmpty = true := by
        rw [String.isEmpty_iff]
        exact append_ne_empty (hts t List.mem_cons_self) _
      rw [spaced, if_neg hne, String.append_assoc, trail_blank, lead_cons, String.append_assoc]

theorem ofTokens_eq (tokens : List Token) (p : Position) : ofTokens tokens p =
    let line := (displayed tokens p).foldl (addToken p) ("", none)
    ⟨line.1, line.2.getD line.1.length⟩ := rfl

theorem displayed_append_cons (ht : t.position = p) (hk : t.kind ≠ .endOfInput) :
    displayed (before ++ t :: after) p = displayed before p ++ t :: displayed after p := by
  unfold displayed
  rw [List.filter_append, List.filter_cons_of_pos (by simp [ht, hk])]

theorem forall_displayed {q : Token → Prop} (h : ∀ t ∈ tokens, q t) :
    ∀ t ∈ displayed tokens p, q t :=
  fun t ht => h t (List.mem_filter.mp ht).1

theorem text_ofTokens (h : ∀ t ∈ tokens, t.display ≠ "") :
    (ofTokens tokens p).text = spaced (displayed tokens p) :=
  foldl_addToken_spaced (forall_displayed h)

/-- The caret stands behind what is in front of the token at the position. -/
theorem caret_ofTokens (h : ∀ s ∈ before ++ t :: after, s.display ≠ "") (ht : t.position = p)
    (hk : t.kind ≠ .endOfInput) (hother : ∀ s ∈ before ++ after, s.position ≠ p) :
    (ofTokens (before ++ t :: after) p).caret = (lead (displayed before p)).length := by
  have hbefore : ∀ s ∈ displayed before p, s.display ≠ "" :=
    forall_displayed fun s hs => h s (List.mem_append_left _ hs)
  have hafter : ∀ s ∈ displayed after p, s.position ≠ p :=
    forall_displayed fun s hs => hother s (List.mem_append_right _ hs)
  rw [ofTokens_eq]
  dsimp only
  rw [displayed_append_cons ht hk, List.foldl_append, List.foldl_cons,
    foldl_addToken_mark hafter, addToken_mark ht, Option.getD_some,
    foldl_addToken_spaced hbefore, text_of_spaced hbefore]

theorem caret_ofTokens_of_notMem (h : ∀ t ∈ tokens, t.display ≠ "")
    (hother : ∀ s ∈ displayed tokens p, s.position ≠ p) :
    (ofTokens tokens p).caret = (spaced (displayed tokens p)).length := by
  have htext : ((displayed tokens p).foldl (addToken p) ("", none)).1 =
      spaced (displayed tokens p) := text_ofTokens h
  rw [ofTokens_eq]
  dsimp only
  rw [foldl_addToken_mark hother, Option.getD_none, htext]

theorem length_addToken (p : Position) (line : String × Option ℕ) (t : Token) :
    (addToken p line t).1.length =
      (if line.1.isEmpty then line.1 else line.1 ++ " ").length + t.display.length :=
  String.length_append _ _

theorem addToken_within {line : String × Option ℕ} (h : ∀ n ∈ line.2, n ≤ line.1.length) :
    ∀ n ∈ (addToken p line t).2, n ≤ (addToken p line t).1.length := by
  intro n hn
  rw [length_addToken]
  by_cases ht : t.position = p
  · rw [addToken_mark ht] at hn
    obtain rfl := Option.mem_some_iff.mp hn
    exact Nat.le_add_right _ _
  · have hmark : (addToken p line t).2 = line.2 := if_neg ht
    rw [hmark] at hn
    have hle := h n hn
    split_ifs
    · omega
    · rw [String.length_append]
      omega

theorem foldl_addToken_within {line : String × Option ℕ} (h : ∀ n ∈ line.2, n ≤ line.1.length) :
    ∀ n ∈ (ts.foldl (addToken p) line).2, n ≤ (ts.foldl (addToken p) line).1.length := by
  induction ts generalizing line with
  | nil => exact h
  | cons t ts ih => exact ih (addToken_within h)

theorem caret_ofTokens_le (tokens : List Token) (p : Position) :
    (ofTokens tokens p).caret ≤ (ofTokens tokens p).text.length := by
  have hwithin : ∀ n ∈ ((displayed tokens p).foldl (addToken p) ("", none)).2, n ≤
      ((displayed tokens p).foldl (addToken p) ("", none)).1.length :=
    foldl_addToken_within nofun
  rw [ofTokens_eq]
  dsimp only
  cases hmark : ((displayed tokens p).foldl (addToken p) ("", none)).2 with
  | none => exact Nat.le_refl _
  | some n => exact hwithin n hmark

end MarkedLine

/-! ## The rendered diagnostic -/

namespace Diagnostic

open MarkedLine
open Text (OneLine feeds ofLines)

variable {d : Diagnostic} {tokens : List Token} {file : String}

/-- The last two lines of a rendered diagnostic: the displayed tokens, and the caret
below the first character of the token at the position. If that is the end of the input,
the caret is behind the displayed tokens. -/
inductive Pointed (tokens : List Token) (p : Position) : String → String → Prop
  | token {before after : List Token} {t : Token} {left mark : String} :
      tokens = before ++ t :: after → t.position = p → t.kind ≠ .endOfInput →
      left = toString p.line ++ " | " ++ lead (displayed before p) →
      mark.length = left.length → '^' ∉ mark.toList →
        Pointed tokens p (left ++ t.display ++ trail (displayed after p)) (mark ++ "^")
  | ending {line mark : String} :
      Token.endOfInput p ∈ tokens →
      line = toString p.line ++ " | " ++ spaced (displayed tokens p) →
      mark.length = line.length → '^' ∉ mark.toList →
        Pointed tokens p line (mark ++ "^")

/-- How a diagnostic is shown with the tokens of the program. -/
structure ShownWith (tokens : List Token) (d : Diagnostic) (text : String) : Prop where
  /-- There are six lines, and one more for each line feed that is displayed. -/
  feeds : feeds text = 6 + ((displayed tokens d.position).map fun t => feeds t.display).sum
  /-- If no line feed is displayed, the last of the six lines points into the one before. -/
  pointed : (∀ t ∈ displayed tokens d.position, OneLine t.display) →
    ∃ heading place message rule line caret, text =
        ofLines [heading, place, message, rule, line, caret] ∧
      (∀ l ∈ [heading, place, message, rule, line, caret], OneLine l) ∧
      Pointed tokens d.position line caret

/-- The first line of a rendered diagnostic. -/
def heading (d : Diagnostic) : String :=
  "Error: " ++ match d.fault.tip? with
    | none => d.fault.name
    | some tip => d.fault.name ++ " (" ++ tip ++ ")"

/-- The ruled lines, up to the rule. -/
def rule (d : Diagnostic) : String :=
  Text.padLeft ((toString d.position.line).length + 2) ' ' "|"

theorem render_eq (d : Diagnostic) (file : String) (line : MarkedLine) :
    d.render file line = ofLines [d.heading, "-> " ++ file ++ ":" ++ d.position.text,
      d.fault.message, d.rule, toString d.position.line ++ " | " ++ line.text,
      d.rule ++ " " ++ Text.padLeft (line.caret + 1) '-' "^"] := by
  unfold render heading rule ofLines
  simp only [List.map_cons, List.map_nil, String.join_cons, String.join_nil, String.append_assoc]
  cases d.fault.tip? <;> rfl

theorem oneLine_heading (h : ∀ s ∈ d.fault.texts, OneLine s) : OneLine d.heading := by
  have htip := d.fault.oneLine_tip h
  unfold heading
  refine .append (by decide) ?_
  cases ht : d.fault.tip? with
  | none => exact d.fault.oneLine_name
  | some tip =>
      have hopening : OneLine " (" := by decide
      have hclosing : OneLine ")" := by decide
      exact (d.fault.oneLine_name.append hopening).append (htip tip ht) |>.append hclosing

theorem toList_rule (d : Diagnostic) :
    d.rule.toList = List.replicate ((toString d.position.line).length + 1) ' ' ++ ['|'] := by
  have hbar : "|".length = 1 := rfl
  unfold rule Text.padLeft
  rw [String.toList_append, String.toList_ofList, hbar]
  rfl

theorem length_rule (d : Diagnostic) : d.rule.length = (toString d.position.line).length + 2 := by
  rw [← String.length_toList, toList_rule]
  simp

theorem notMem_rule {c : Char} (hblank : c ≠ ' ') (hbar : c ≠ '|') : c ∉ d.rule.toList := by
  rw [toList_rule, List.mem_append, List.mem_replicate, List.mem_singleton]
  rintro (⟨-, h⟩ | h)
  · exact hblank h
  · exact hbar h

/-- The caret stands behind as many characters of its line as the text has. -/
theorem exists_caret_line (d : Diagnostic) (left : String) :
    ∃ mark : String, d.rule ++ " " ++ Text.padLeft (left.length + 1) '-' "^" = mark ++ "^" ∧
      mark.length = (toString d.position.line ++ " | " ++ left).length ∧ '^' ∉ mark.toList := by
  obtain ⟨dashes, heq, hlength, hdashes⟩ := Text.length_padLeft_caret left.length
  refine ⟨d.rule ++ " " ++ dashes, by rw [heq, ← String.append_assoc], ?_, ?_⟩
  · have hblank : " ".length = 1 := rfl
    have hbar : " | ".length = 3 := rfl
    simp only [String.length_append, hlength, length_rule, hblank, hbar]
  · simp only [String.toList_append, List.mem_append, not_or]
    exact ⟨⟨notMem_rule (by decide) (by decide), by decide⟩, hdashes⟩

theorem oneLine_caret (n : ℕ) : OneLine (d.rule ++ " " ++ Text.padLeft (n + 1) '-' "^") := by
  obtain ⟨dashes, heq, -, -⟩ := Text.length_padLeft_caret n
  have hrule : OneLine d.rule := notMem_rule (by decide) (by decide)
  refine (hrule.append (by decide)).append ?_
  unfold OneLine Text.padLeft
  rw [String.toList_append, String.toList_ofList, List.mem_append, List.mem_replicate]
  rintro (⟨-, h⟩ | h)
  · exact absurd h (by decide)
  · exact absurd h (by decide)

/-- Where later tokens have later places, no two tokens share one. -/
theorem position_ne_of_pairwise {before after : List Token} {t : Token}
    (h : (before ++ t :: after).Pairwise fun s t => s.position < t.position) :
    ∀ s ∈ before ++ after, s.position ≠ t.position := by
  obtain ⟨-, hbehind, hbefore⟩ := List.pairwise_append.mp h
  intro s hs heq
  rcases List.mem_append.mp hs with hs | hs
  · have hlt := hbefore s hs t List.mem_cons_self
    rw [heq] at hlt
    exact Position.lt_irrefl _ hlt
  · have hlt := (List.pairwise_cons.mp hbehind).1 s hs
    rw [heq] at hlt
    exact Position.lt_irrefl _ hlt

/-- The line of the program with the caret below it. -/
theorem pointed_ofTokens (hdisplay : ∀ t ∈ tokens, t.display ≠ "")
    (hplaces : tokens.Pairwise fun s t => s.position < t.position) {t : Token} (ht : t ∈ tokens)
    (hposition : t.position = d.position)
    (hend : t.kind = .endOfInput → t = .endOfInput d.position) :
    Pointed tokens d.position
      (toString d.position.line ++ " | " ++ (MarkedLine.ofTokens tokens d.position).text)
      (d.rule ++ " " ++
        Text.padLeft ((MarkedLine.ofTokens tokens d.position).caret + 1) '-' "^") := by
  obtain ⟨before, after, hsplit⟩ := List.append_of_mem ht
  rw [hsplit] at hplaces
  have hother := position_ne_of_pairwise hplaces
  rw [hposition] at hother
  rw [text_ofTokens hdisplay]
  by_cases hk : t.kind = .endOfInput
  · have hnone : ∀ s ∈ displayed tokens d.position, s.position ≠ d.position := by
      intro s hs
      obtain ⟨hmem, hshown⟩ := List.mem_filter.mp hs
      rw [hsplit, List.mem_append, List.mem_cons] at hmem
      rcases hmem with hmem | rfl | hmem
      · exact hother s (List.mem_append_left _ hmem)
      · exact absurd hshown (by simp [hk])
      · exact hother s (List.mem_append_right _ hmem)
    obtain ⟨mark, heq, hlength, hmark⟩ :=
      exists_caret_line d (spaced (displayed tokens d.position))
    rw [caret_ofTokens_of_notMem hdisplay hnone, heq]
    exact .ending (hend hk ▸ ht) rfl hlength hmark
  · obtain ⟨mark, heq, hlength, hmark⟩ := exists_caret_line d (lead (displayed before d.position))
    rw [hsplit] at hdisplay ⊢
    rw [caret_ofTokens hdisplay hposition hk hother, heq, displayed_append_cons hposition hk,
      spaced_append_cons, ← String.append_assoc, ← String.append_assoc]
    exact .token rfl hposition hk rfl hlength hmark

theorem shownWith (htexts : ∀ s ∈ d.fault.texts, OneLine s) (hfile : OneLine file)
    (hdisplay : ∀ t ∈ tokens, t.display ≠ "")
    (hplaces : tokens.Pairwise fun s t => s.position < t.position) {t : Token} (ht : t ∈ tokens)
    (hposition : t.position = d.position)
    (hend : t.kind = .endOfInput → t = .endOfInput d.position) :
    d.ShownWith tokens (d.renderFromTokens file tokens) := by
  have hheading := d.oneLine_heading htexts
  have hplace : OneLine ("-> " ++ file ++ ":" ++ d.position.text) := by
    refine .append (.append (.append ?_ hfile) ?_) (Text.oneLine_position _)
    · decide
    · decide
  have hmessage := d.fault.oneLine_message htexts
  have hrule : OneLine d.rule := notMem_rule (by decide) (by decide)
  have hmargin : OneLine (toString d.position.line ++ " | ") :=
    (Text.oneLine_toString _).append (by decide)
  have htext : (MarkedLine.ofTokens tokens d.position).text =
      spaced (displayed tokens d.position) := text_ofTokens hdisplay
  have hfeeds : feeds (toString d.position.line ++ " | " ++
      (MarkedLine.ofTokens tokens d.position).text) =
        ((displayed tokens d.position).map fun t => feeds t.display).sum := by
    rw [Text.feeds_append, Text.feeds_eq_zero_iff.mpr hmargin, htext, feeds_spaced, Nat.zero_add]
  have hcaret := d.oneLine_caret (MarkedLine.ofTokens tokens d.position).caret
  have hpointed := pointed_ofTokens hdisplay hplaces ht hposition hend
  unfold renderFromTokens
  rw [render_eq]
  constructor
  · simp only [Text.feeds_ofLines, List.map_cons, List.map_nil, List.sum_cons, List.sum_nil,
      Text.feeds_eq_zero_iff.mpr hheading, Text.feeds_eq_zero_iff.mpr hplace,
      Text.feeds_eq_zero_iff.mpr hmessage, Text.feeds_eq_zero_iff.mpr hrule, hfeeds,
      Text.feeds_eq_zero_iff.mpr hcaret, Nat.zero_add, Nat.add_zero]
    rfl
  · intro hshown
    refine ⟨_, _, _, _, _, _, rfl, ?_, hpointed⟩
    have hline : OneLine (MarkedLine.ofTokens tokens d.position).text := by
      rw [htext, ← Text.feeds_eq_zero_iff, feeds_spaced, List.sum_eq_zero_iff_forall_eq_nat]
      intro n hn
      obtain ⟨t, ht, rfl⟩ := List.mem_map.mp hn
      exact Text.feeds_eq_zero_iff.mpr (hshown t ht)
    simp only [List.forall_mem_cons]
    exact ⟨hheading, hplace, hmessage, hrule, hmargin.append hline, hcaret, nofun⟩

end Diagnostic

end ScriptFront
