import ScriptFront.Proofs.Source.Places
import ScriptFront.Proofs.Token.Lexemes
import ScriptFront.Proofs.Token.Words

/-!
# The layout of a source text

Reading a text loses nothing of it. The text falls into lexemes, one for each token,
and gaps between them, which are blanks and comments. Each token carries the place of
its lexeme, and the end mark that of the end of the text, so that the places of the
tokens follow each other in the order of the list.
-/
namespace ScriptFront

namespace Pattern

/-! ## The text between quotes -/

/-- The characters that have a meaning behind a backslash, with that meaning. -/
def escapes : List (Char × Char) :=
  [('n', '\n'), ('t', '\t'), ('r', '\r'), ('\\', '\\'), ('"', '"'), ('0', '\x00')]

/-- `Escaped body value`: between quotes, `body` stands for `value`. A backslash
before a character that has no meaning behind it stands for itself. -/
inductive Escaped : List Char → List Char → Prop
  | nil : Escaped [] []
  | plain {c : Char} {cs vs : List Char} :
      c ≠ '"' → c ≠ '\\' → Escaped cs vs → Escaped (c :: cs) (c :: vs)
  | escape {c v : Char} {cs vs : List Char} :
      (c, v) ∈ escapes → Escaped cs vs → Escaped ('\\' :: c :: cs) (v :: vs)
  | kept {c : Char} {cs vs : List Char} :
      c ∉ escapes.map Prod.fst → c ≠ '\n' → Escaped cs vs →
        Escaped ('\\' :: c :: cs) ('\\' :: c :: vs)

theorem unescape_plain {c : Char} (h : c ≠ '\\') (cs : List Char) :
    unescape (c :: cs) = c :: unescape cs := by
  rw [unescape] <;> exact fun _ hc => absurd hc h

theorem unescape_escape {c v : Char} (h : (c, v) ∈ escapes) (cs : List Char) :
    unescape ('\\' :: c :: cs) = v :: unescape cs := by
  simp only [escapes, List.mem_cons, Prod.mk.injEq, List.not_mem_nil, or_false] at h
  rcases h with ⟨rfl, rfl⟩ | ⟨rfl, rfl⟩ | ⟨rfl, rfl⟩ | ⟨rfl, rfl⟩ | ⟨rfl, rfl⟩ | ⟨rfl, rfl⟩ <;> rfl

theorem unescape_kept {c : Char} (h : c ∉ escapes.map Prod.fst) (cs : List Char) :
    unescape ('\\' :: c :: cs) = '\\' :: c :: unescape cs := by
  simp only [escapes, List.map_cons, List.map_nil, List.mem_cons, List.not_mem_nil, or_false,
    not_or] at h
  obtain ⟨hn, ht, hr, hb, hq, hz⟩ := h
  rw [unescape, unescape_plain hb]
  all_goals
    intro ds hds
    simp_all

theorem Escaped.unescape_eq {body value : List Char} (h : Escaped body value) :
    unescape body = value := by
  induction h with
  | nil => rfl
  | plain _ hb _ ih => rw [unescape_plain hb, ih]
  | escape hc _ ih => rw [unescape_escape hc, ih]
  | kept hc _ _ ih => rw [unescape_kept hc, ih]

theorem Escaped.quotable {body value : List Char} (h : Escaped body value) : Quotable body := by
  induction h with
  | nil => exact .nil
  | plain hq hb _ ih => exact .plain hq hb ih
  | @escape c v _ _ hc _ ih =>
      have hfeed : ∀ e ∈ escapes, e.1 ≠ '\n' := by decide
      exact .escape (hfeed (c, v) hc) ih
  | kept _ hc _ ih => exact .escape hc ih

theorem Quotable.escaped {body : List Char} (h : Quotable body) : Escaped body (unescape body) := by
  induction h with
  | nil => exact .nil
  | @escape c cs hc _ ih =>
      by_cases hmem : c ∈ escapes.map Prod.fst
      · obtain ⟨⟨d, v⟩, hv, rfl⟩ := List.mem_map.mp hmem
        rw [unescape_escape hv]
        exact .escape hv ih
      · rw [unescape_kept hmem]
        exact .kept hmem hc ih
  | plain hq hb _ ih =>
      rw [unescape_plain hb]
      exact .plain hq hb ih

end Pattern

/-! ## Gaps and lexemes -/

/-- Something between two lexemes: a run of blanks, a comment that reaches to the end of its
line, or a comment between marks, of which only one that ends the text may lack
the closing mark. The text `rest` stands behind it. -/
inductive Filler : List Char → List Char → Prop
  | blanks {w rest : List Char} : w ≠ [] → (∀ c ∈ w, Text.isWhiteSpace c) → Filler w rest
  | lineComment {w rest : List Char} : (∀ c ∈ w, c ≠ '\n') → (∀ c ∈ rest.head?, c = '\n') →
      Filler ('/' :: '/' :: w) rest
  | blockComment {w rest : List Char} : Pattern.Unclosed (w ++ ['*']) →
      Filler ('/' :: '*' :: (w ++ Pattern.closingMark)) rest
  | openComment {w : List Char} : Pattern.Unclosed w → Filler ('/' :: '*' :: w) []

/-- A sequence of blanks and comments in front of the text `rest`. -/
inductive Gap : List Char → List Char → Prop
  | nil {rest : List Char} : Gap [] rest
  | cons {w gap rest : List Char} : Filler w (gap ++ rest) → Gap gap rest → Gap (w ++ gap) rest

/-- The token can be written as this lexeme: its text as it is, or between quotes and
escaped if the token is a string. -/
inductive Token.WrittenAs : Token → List Char → Prop
  | itself {t : Token} : t.kind ≠ .endOfInput → t.kind ≠ .string → WrittenAs t t.text.toList
  | quoted {t : Token} {body : List Char} : t.kind = .string →
      Pattern.Escaped body t.text.toList → WrittenAs t ('"' :: (body ++ ['"']))

/-- `Laid before rest tokens`: behind the text `before`, the text `rest` falls into gaps
and the lexemes of the tokens. Each lexeme is the longest that is possible at its place,
and the tokens are placed where their lexemes begin; an end mark closes the list. -/
inductive Laid : List Char → List Char → List Token → Prop
  | finish {before gap : List Char} : Gap gap [] →
      Laid before gap [Token.endOfInput (Position.behind (before ++ gap))]
  | token {before gap lexeme rest : List Char} {t : Token} {tokens : List Token} :
      Gap gap (lexeme ++ rest) → t.WrittenAs lexeme → Pattern.Longest lexeme rest →
      t.position = Position.behind (before ++ gap) →
      Laid (before ++ gap ++ lexeme) rest tokens →
        Laid before (gap ++ lexeme ++ rest) (t :: tokens)

theorem Laid.filler {before w rest : List Char} {tokens : List Token} (hw : Filler w rest)
    (h : Laid (before ++ w) rest tokens) : Laid before (w ++ rest) tokens := by
  cases h with
  | finish hgap =>
      rw [List.append_assoc]
      exact .finish (.cons (by simpa using hw) hgap)
  | token hgap hlexeme hlongest hplace h =>
      rw [List.append_assoc before] at hplace
      rw [List.append_assoc before] at h
      rw [List.append_assoc] at hw
      rw [← List.append_assoc, ← List.append_assoc]
      exact .token (.cons hw hgap) hlexeme hlongest hplace h

/-! ## Places -/

/-- Every token stands at a place of the text. -/
theorem Laid.exists_position {before rest : List Char} {tokens : List Token}
    (h : Laid before rest tokens) :
    ∀ t ∈ tokens, ∃ w v, rest = w ++ v ∧ t.position = Position.behind (before ++ w) := by
  induction h with
  | @finish before gap _ =>
      intro t ht
      rw [List.mem_singleton.mp ht]
      exact ⟨gap, [], (List.append_nil _).symm, rfl⟩
  | @token before gap lexeme rest _ _ _ _ _ hplace _ ih =>
      intro t ht
      rcases List.mem_cons.mp ht with rfl | ht
      · exact ⟨gap, lexeme ++ rest, List.append_assoc .., hplace⟩
      · obtain ⟨w, v, rfl, hw⟩ := ih t ht
        refine ⟨gap ++ lexeme ++ w, v, by simp only [List.append_assoc], ?_⟩
        rw [hw]
        simp only [List.append_assoc]

theorem Pattern.Longest.ne_nil {lexeme rest : List Char} (h : Longest lexeme rest) :
    lexeme ≠ [] := by
  obtain ⟨p, hp, hmatches⟩ := h.matched
  obtain ⟨c, w, rfl, -⟩ := hmatches.exists_cons hp
  exact List.cons_ne_nil c w

theorem Laid.increasing {before rest : List Char} {tokens : List Token}
    (h : Laid before rest tokens) : tokens.Pairwise fun s t => s.position < t.position := by
  induction h with
  | finish => exact List.pairwise_singleton _ _
  | @token before gap lexeme rest t tokens _ _ hlongest hplace h ih =>
      refine List.pairwise_cons.mpr ⟨fun u hu => ?_, ih⟩
      obtain ⟨w, -, -, hw⟩ := h.exists_position u hu
      rw [hplace, hw, List.append_assoc (before ++ gap)]
      apply Position.behind_lt_append
      simp [hlongest.ne_nil]

/-! ## Reading -/

open Source (Scanner)

namespace Pattern

/-- What leaves no token is blank or a comment, and reaches as far as that does. -/
theorem exists_filler {p : Pattern} {cs lexeme following : List Char} {n : ℕ} {place : Position}
    (hlength : p.length? cs = some n) (h : p.read lexeme following place = .ok none) :
    ∃ w rest, cs = w ++ rest ∧ w.length = n ∧ Filler w rest := by
  cases p with
  | blanks =>
      obtain ⟨w, rest, rfl, hn, hne, hw, -⟩ := exists_of_runLength? hlength
      exact ⟨w, rest, rfl, hn, .blanks hne hw⟩
  | lineComment =>
      unfold length? at hlength
      split at hlength <;> try contradiction
      next cs _ =>
        obtain ⟨w, rest, rfl, hw, hrest⟩ := exists_run (fun c => c ≠ '\n') cs
        rw [takeWhile_run hw hrest, Option.some.injEq] at hlength
        refine ⟨'/' :: '/' :: w, rest, rfl, ?_, .lineComment (by simpa using hw)
          (by simpa using hrest)⟩
        rw [List.length_cons, List.length_cons]
        omega
  | blockComment =>
      unfold length? at hlength
      split at hlength <;> try contradiction
      next cs _ =>
        rw [Option.some.injEq] at hlength
        rcases blockLength_spec cs with ⟨w, rest, rfl, hw, hblock⟩ | ⟨hcs, hblock⟩
        · refine ⟨'/' :: '*' :: (w ++ closingMark), rest, rfl, ?_, .blockComment hw⟩
          simp only [closingMark, List.length_cons, List.length_append, List.length_nil]
          omega
        · refine ⟨'/' :: '*' :: cs, [], (List.append_nil _).symm, ?_, .openComment hcs⟩
          rw [List.length_cons, List.length_cons]
          omega
  | number => exact absurd h read_number_ne_none
  | word | quotedText | openQuote | mark => cases h

theorem filler_of_read {p : Pattern} {lexeme rest : List Char} {place : Position}
    (hlength : p.length? (lexeme ++ rest) = some lexeme.length)
    (h : p.read lexeme rest place = .ok none) : Filler lexeme rest := by
  obtain ⟨w, rest', heq, hw, hfiller⟩ := exists_filler hlength h
  obtain ⟨rfl, rfl⟩ := List.append_inj heq hw.symm
  exact hfiller

/-- A token is placed where its lexeme begins, and it can be written as that. -/
theorem writtenAs_of_read {p : Pattern} {lexeme rest following : List Char} {place : Position}
    {t : Token} (hp : p ∈ table) (hmatches : p.Matches lexeme rest)
    (h : p.read lexeme following place = .ok (some t)) :
    t.WrittenAs lexeme ∧ t.position = place := by
  have itself {kind : TokenKind} (hend : kind ≠ .endOfInput) (hstring : kind ≠ .string) :
      Token.WrittenAs ⟨kind, String.ofList lexeme, place⟩ lexeme := by
    simpa using Token.WrittenAs.itself (t := ⟨kind, String.ofList lexeme, place⟩) hend hstring
  unfold read at h
  cases p with
  | blanks | lineComment | blockComment | openQuote => cases h
  | word =>
      cases h
      exact ⟨itself (TokenKind.ofWord_ne_endOfInput _) (TokenKind.ofWord_ne_string _), rfl⟩
  | number =>
      rcases eq_of_numberToken (read_number_eq_some_iff.mp h) with rfl | rfl <;>
        exact ⟨itself nofun nofun, rfl⟩
  | quotedText =>
      cases h
      cases hmatches with
      | quotedText hw =>
          refine ⟨.quoted rfl ?_, rfl⟩
          rw [List.tail_cons, List.dropLast_concat, String.toList_ofList]
          exact hw.escaped
  | mark spelling kind =>
      cases h
      cases hmatches
      obtain ⟨hend, -, hstring⟩ := kind_of_mark_mem hp
      exact ⟨.itself hend hstring, rfl⟩

end Pattern

namespace Token

/-- A run to the end of the text lays out its tokens. -/
theorem ReadsUpTo.laid {s t : Scanner} {before : List Char} {tokens : List Token}
    (h : ReadsUpTo s tokens t) (hend : t.rest = [])
    (hplace : s.position = Position.behind before) :
    Laid before s.rest (tokens ++ [endOfInput t.position]) := by
  induction h generalizing before with
  | here =>
      have hlaid : Laid before [] _ := .finish .nil
      rwa [List.append_nil, ← hplace, ← hend] at hlaid
  | @skip lexeme rest place _ _ _ _ hfirst hread _ ih =>
      obtain rfl : place = Position.behind before := hplace
      obtain ⟨-, hlength⟩ := Pattern.exists_of_first? hfirst
      have hlaid := ih hend (Position.afterAll_behind before lexeme)
      exact hlaid.filler (Pattern.filler_of_read hlength hread)
  | @token lexeme rest place p _ _ _ _ hfirst hread _ ih =>
      obtain rfl : place = Position.behind before := hplace
      obtain ⟨hmem, hmatches⟩ := Pattern.matches_of_first? hfirst
      obtain ⟨hwritten, hplace⟩ := Pattern.writtenAs_of_read hmem hmatches hread
      have hcomment : p ≠ .blockComment := by
        rintro rfl
        cases hread
      have hlongest := Pattern.longest_of_first? hfirst hcomment
      have hlaid := ih hend (Position.afterAll_behind before lexeme)
      refine @Laid.token before [] _ _ _ _ .nil hwritten hlongest ?_ ?_
      · rw [List.append_nil, hplace]
      · rw [List.append_nil]
        exact hlaid

theorem laid_of_scan {s : Scanner} {before : List Char} {tokens : List Token}
    (hplace : s.position = Position.behind before) (h : scan s = .ok tokens) :
    Laid before s.rest tokens := by
  obtain ⟨body, place, rfl, hrun⟩ := exists_run_of_scan h
  exact hrun.laid rfl hplace

end Token

end ScriptFront
