import ScriptFront.Proofs.Token.Layout
import ScriptFront.Proofs.Token.Runs

/-!
# Spelling tokens

A word is what a token is without its place. Each word that a token can have is
spelled in one way here, and words with spaces between them are read back as they
were: a space ends the lexeme before it, whatever that is.
-/
namespace ScriptFront

namespace Pattern

/-! ## Lexemes in front of blanks -/

/-- What the pattern matches contains no blanks. -/
def solid : Pattern → Bool
  | word | number | mark _ _ => true
  | _ => false

theorem fixed_of_solid {p : Pattern} (h : p.solid) (hsign : p.opener = .sign) : p.fixed := by
  cases p <;> simp_all [solid, opener, fixed]

theorem not_isWhiteSpace_front : ∀ p ∈ table, ∀ c ∈ p.front, ¬ Text.isWhiteSpace c := by
  have h : ∀ p ∈ table, p.front.all fun c => ¬ Text.isWhiteSpace c := by decide
  intro p hp c hc
  exact of_decide_eq_true (List.all_eq_true.mp (h p hp) c hc)

theorem Matches.not_isWhiteSpace {p : Pattern} {w rest : List Char} (h : p.Matches w rest)
    (hp : p ∈ table) (hsolid : p.solid) : ∀ c ∈ w, ¬ Text.isWhiteSpace c := by
  cases h with
  | @word c w _ hc hw =>
      refine List.forall_mem_cons.mpr ⟨not_isWhiteSpace_of_isWordStart hc, fun d hd => ?_⟩
      have hpart := hw d hd
      rw [isWordPart, Bool.or_eq_true] at hpart
      rcases hpart with hstart | hdigit
      · exact not_isWhiteSpace_of_isWordStart hstart
      · exact not_isWhiteSpace_of_isDigit hdigit
  | integer hw => exact fun d hd => not_isWhiteSpace_of_isDigit (hw.2 d hd)
  | float hw hf =>
      refine List.forall_mem_append.mpr ⟨?_, List.forall_mem_cons.mpr ⟨by decide, ?_⟩⟩
      · exact fun d hd => not_isWhiteSpace_of_isDigit (hw.2 d hd)
      · exact fun d hd => not_isWhiteSpace_of_isDigit (hf.2 d hd)
  | mark => exact not_isWhiteSpace_front _ hp
  | _ => cases hsolid

theorem prefix_of_blank {u w rest : List Char} (hu : u <+: w ++ rest)
    (hsolid : ∀ c ∈ u, ¬ Text.isWhiteSpace c) (hrest : ∀ c ∈ rest.head?, Text.isWhiteSpace c) :
    u <+: w := by
  rcases List.prefix_or_prefix_of_prefix hu (List.prefix_append w rest) with h | ⟨x, rfl⟩
  · exact h
  · cases x with
    | nil => exact ⟨[], by simp⟩
    | cons c x =>
        obtain ⟨y, rfl⟩ := (List.prefix_append_right_inj w).mp hu
        exact absurd (hrest c rfl) (hsolid c (by simp))

/-- A mark begins with no other lexeme than itself and shorter marks. -/
theorem mark_fronts :
    ∀ p ∈ table, ∀ q ∈ table, p.fixed → p.solid → q.opener = .sign → q.front <+: p.front →
      q.fixed ∧ (q.front = p.front → q = p) := by decide

theorem exists_first? {p : Pattern} (hp : p ∈ table) {cs : List Char} {n : ℕ}
    (hn : p.length? cs = some n) : ∃ q m, first? cs = some (q, m) ∧ n ≤ m := by
  cases h : first? cs with
  | none =>
      have hnone := List.findSome?_eq_none_iff.mp h p hp
      rw [hn] at hnone
      cases hnone
  | some found => exact ⟨found.1, found.2, rfl, length?_le_of_first? h hp hn⟩

/-- In front of blanks, a word, a number or a mark is taken as it is. -/
theorem Matches.first?_eq {p : Pattern} {w rest : List Char} (hw : p.Matches w rest)
    (hp : p ∈ table) (hsolid : p.solid) (hrest : ∀ c ∈ rest.head?, Text.isWhiteSpace c) :
    first? (w ++ rest) = some (p, w.length) := by
  have hcomment : p ≠ blockComment := by
    rintro rfl
    cases hsolid
  obtain ⟨n, hn, hwn⟩ := hw.exists_length? hcomment
  obtain ⟨q, m, hfirst, hnm⟩ := exists_first? hp hn
  obtain ⟨hq, hm⟩ := exists_of_first? hfirst
  obtain ⟨v, rest', heq, rfl, hv⟩ := exists_of_length? hm
  have hpre : v <+: w ++ rest := ⟨rest', heq.symm⟩
  have hqp : q = p := by
    have hopener := hw.opener_eq hv hp hq heq
    by_cases hsign : p.opener = .sign
    · have hfixed := fixed_of_solid hsolid hsign
      have hfront : q.front <+: p.front := by
        rw [← hw.eq_front hfixed]
        exact prefix_of_blank (hv.front_prefix.trans hpre) (not_isWhiteSpace_front q hq) hrest
      obtain ⟨hqfixed, hall⟩ := mark_fronts p hp q hq hfixed hsolid (hopener ▸ hsign) hfront
      apply hall
      apply hfront.eq_of_length_le
      rw [← hw.eq_front hfixed, ← hv.eq_front hqfixed]
      omega
    · exact (eq_of_opener_eq hopener hsign).symm
  subst hqp
  have hvw : v <+: w := prefix_of_blank hpre (hv.not_isWhiteSpace hq hsolid) hrest
  rw [hfirst, hvw.eq_of_length_le (hwn.trans hnm)]

/-- A closed string is taken as it is. -/
theorem first?_quotedText {w : List Char} (hw : Quotable w) (rest : List Char) :
    first? ('"' :: (w ++ '"' :: rest)) = some (quotedText, w.length + 2) := by
  have hlength : quotedText.length? ('"' :: (w ++ '"' :: rest)) = some (1 + (w.length + 1)) := by
    rw [length?, stringLength?_quotable hw]
    rfl
  have hbefore : ∀ p ∈ [blanks, lineComment, blockComment, word, number],
      (p.length? ('"' :: (w ++ '"' :: rest))).map (p, ·) = none := by
    simp only [List.forall_mem_cons, List.not_mem_nil, false_imp_iff, implies_true, and_true]
    exact ⟨rfl, rfl, rfl, rfl, rfl⟩
  refine List.findSome?_eq_some_iff.mpr ⟨_, quotedText, _, rfl, ?_, hbefore⟩
  rw [hlength, Option.map_some, Nat.add_comm 1]

theorem first?_blanks {w rest : List Char} (hne : w ≠ []) (hw : ∀ c ∈ w, Text.isWhiteSpace c)
    (hrest : ∀ c ∈ rest.head?, ¬ Text.isWhiteSpace c) :
    first? (w ++ rest) = some (blanks, w.length) := by
  have hlength : blanks.length? (w ++ rest) = some w.length := runLength?_run hne hw hrest
  rw [first?, table, List.findSome?_cons, hlength]
  rfl

theorem first?_lineComment {w rest : List Char} (hw : ∀ c ∈ w, c ≠ '\n')
    (hrest : ∀ c ∈ rest.head?, c = '\n') :
    first? ('/' :: '/' :: w ++ rest) = some (lineComment, w.length + 2) := by
  have hrun : (w ++ rest).takeWhile (· ≠ '\n') = w :=
    takeWhile_run (by simpa using hw) (by simpa using hrest)
  have hfirst : first? ('/' :: '/' :: (w ++ rest)) =
      some (lineComment, 2 + ((w ++ rest).takeWhile (· ≠ '\n')).length) := rfl
  rw [List.cons_append, List.cons_append, hfirst, hrun, Nat.add_comm]

end Pattern

/-- A closed string leaves one token, with its value. -/
theorem Token.readsUpTo_string {body value : List Char} (h : Pattern.Escaped body value)
    (rest : List Char) (place : Position) :
    ReadsUpTo ⟨'"' :: (body ++ ['"']) ++ rest, place⟩ [⟨.string, String.ofList value, place⟩]
      ⟨rest, place.afterAll ('"' :: (body ++ ['"']))⟩ := by
  refine .token (p := .quotedText) (List.cons_ne_nil _ _) ?_ ?_ .here
  · simpa using Pattern.first?_quotedText h.quotable rest
  · rw [Pattern.read, List.tail_cons, List.dropLast_concat, h.unescape_eq]

/-! ## Words -/

/-- A kind and a text: a token without its place. -/
structure Word where
  kind : TokenKind
  text : String
deriving DecidableEq, Repr

def Token.word (t : Token) : Word := ⟨t.kind, t.text⟩

/-- The spelling of a kind that has no other one. The sign for `not` has two, of which
this is the usual one. -/
def TokenKind.spelling? : TokenKind → Option String
  | openBracket => some "["
  | closeBracket => some "]"
  | openCurly => some "\x7b"
  | closeCurly => some "\x7d"
  | openParen => some "("
  | closeParen => some ")"
  | assignment => some "="
  | equals => some "=="
  | not => some "!"
  | notEquals => some "!="
  | less => some "<"
  | lessEquals => some "<="
  | greater => some ">"
  | greaterEquals => some ">="
  | or => some "||"
  | and => some "&&"
  | xor => some "^"
  | dot => some "."
  | semicolon => some ";"
  | comma => some ","
  | plus => some "+"
  | dash => some "-"
  | slash => some "/"
  | star => some "*"
  | percent => some "%"
  | ifWord => some "if"
  | elseWord => some "else"
  | whileWord => some "while"
  | breakWord => some "break"
  | returnWord => some "return"
  | _ => none

namespace Word

/-- The word of a kind that has one spelling. -/
def ofKind (k : TokenKind) : Word := ⟨k, k.spelling?.getD ""⟩

/-- The text of a string as it stands between quotes: a backslash before each quote
and before each backslash. -/
def escape : List Char → List Char
  | [] => []
  | c :: cs => if c = '"' ∨ c = '\\' then '\\' :: c :: escape cs else c :: escape cs

/-- The word as it is written in a source. -/
def spelling (w : Word) : List Char :=
  if w.kind = .string then '"' :: (escape w.text.toList ++ ['"']) else w.text.toList

/-- The text of words with a space between them. -/
def lineOf (ws : List Word) : List Char := [' '].intercalate (ws.map spelling)

/-- A word that some token of a source can have. -/
inductive Legal : Word → Prop
  | word {c : Char} {cs : List Char} {text : String} : Pattern.isWordStart c →
      (∀ d ∈ cs, Pattern.isWordPart d) → text.toList = c :: cs → Legal ⟨TokenKind.ofWord text, text⟩
  | int {text : String} : Numeral.IsDigits text.toList →
      Numeral.decimal text.toList < Numeral.limit → Legal ⟨.int, text⟩
  | float {whole fraction : List Char} {text : String} : Numeral.IsDigits whole →
      Numeral.IsDigits fraction → text.toList = whole ++ '.' :: fraction → Legal ⟨.float, text⟩
  | string {text : String} : Legal ⟨.string, text⟩
  | mark {text : String} {kind : TokenKind} : Pattern.mark text kind ∈ Pattern.table →
      Legal ⟨kind, text⟩

/-- A kind with one spelling is that of a mark or of a reserved word. -/
theorem mem_table_or_reserved :
    ∀ k ∈ TokenKind.all, ∀ text ∈ k.spelling?,
      Pattern.mark text k ∈ Pattern.table ∨
        (text, k) ∈ TokenKind.reserved ∧ TokenKind.ofWord text = k := by decide +kernel

theorem isWordStart_of_reserved :
    ∀ r ∈ TokenKind.reserved, r.1.toList ≠ [] ∧ ∀ c ∈ r.1.toList, Pattern.isWordStart c := by
  simp only [← List.all_eq_true]
  decide +kernel

theorem Legal.reserved {text : String} {k : TokenKind} (hmem : (text, k) ∈ TokenKind.reserved)
    (hkind : TokenKind.ofWord text = k) : (⟨k, text⟩ : Word).Legal := by
  obtain ⟨hne, hstart⟩ := isWordStart_of_reserved _ hmem
  obtain ⟨c, cs, hcs⟩ := List.exists_cons_of_ne_nil hne
  rw [hcs] at hstart
  obtain ⟨hc, hrest⟩ := List.forall_mem_cons.mp hstart
  rw [← hkind]
  exact .word hc (fun d hd => by rw [Pattern.isWordPart, hrest d hd, Bool.true_or]) hcs

theorem Legal.ofKind {k : TokenKind} (h : k.spelling?.isSome) : (Word.ofKind k).Legal := by
  obtain ⟨text, htext⟩ := Option.isSome_iff_exists.mp h
  have hword : Word.ofKind k = ⟨k, text⟩ := by rw [Word.ofKind, htext, Option.getD_some]
  rw [hword]
  rcases mem_table_or_reserved k (TokenKind.mem_all k) text htext with hmark | ⟨hmem, hkind⟩
  · exact .mark hmark
  · exact .reserved hmem hkind

theorem escaped_escape (cs : List Char) : Pattern.Escaped (escape cs) cs := by
  induction cs with
  | nil => exact .nil
  | cons c cs ih =>
      unfold escape
      split_ifs with hc
      · rcases hc with rfl | rfl
        · exact .escape (by decide) ih
        · exact .escape (by decide) ih
      · rw [not_or] at hc
        exact .plain hc.1 hc.2 ih

/-! ## Reading words -/

open Source (Scanner)

variable {rest : List Char} {place : Position}

theorem scan_of_read {lexeme : List Char} {p : Pattern} {t : Token} (hne : lexeme ≠ [])
    (h : Pattern.first? (lexeme ++ rest) = some (p, lexeme.length))
    (hread : p.read lexeme rest place = .ok (some t)) :
    Token.scan ⟨lexeme ++ rest, place⟩ =
      (t :: ·) <$> Token.scan ⟨rest, place.afterAll lexeme⟩ := by
  rw [Token.scan_of_first? hne h, hread]
  rfl

theorem scan_of_skip {lexeme : List Char} {p : Pattern} (hne : lexeme ≠ [])
    (h : Pattern.first? (lexeme ++ rest) = some (p, lexeme.length))
    (hread : p.read lexeme rest place = .ok none) :
    Token.scan ⟨lexeme ++ rest, place⟩ = Token.scan ⟨rest, place.afterAll lexeme⟩ := by
  rw [Token.scan_of_first? hne h, hread]
  exact bind_pure (Token.scan _)

/-- Blanks leave nothing, whether further blanks follow or not. -/
theorem scan_blanks {w : List Char} (hw : ∀ c ∈ w, Text.isWhiteSpace c) :
    Token.scan ⟨w ++ rest, place⟩ = Token.scan ⟨rest, place.afterAll w⟩ := by
  -- a run that is not followed by blanks is taken as a whole
  have hrun {v after : List Char} {place : Position} (hv : ∀ c ∈ v, Text.isWhiteSpace c)
      (hafter : ∀ c ∈ after.head?, ¬ Text.isWhiteSpace c) :
      Token.scan ⟨v ++ after, place⟩ = Token.scan ⟨after, place.afterAll v⟩ := by
    cases v with
    | nil => rfl
    | cons c v =>
        exact scan_of_skip (List.cons_ne_nil c v)
          (Pattern.first?_blanks (List.cons_ne_nil c v) hv hafter) rfl
  obtain ⟨v, after, rfl, hv, hafter⟩ := Pattern.exists_run Text.isWhiteSpace rest
  rw [hrun hv hafter, ← List.append_assoc, ← Position.afterAll_append]
  exact hrun (List.forall_mem_append.mpr ⟨hw, hv⟩) hafter

theorem spelling_eq {w : Word} (h : w.kind ≠ .string) : w.spelling = w.text.toList := if_neg h

theorem numberToken_eq {lexeme : List Char} (hrest : ∀ c ∈ rest.head?, Text.isWhiteSpace c) :
    Pattern.numberToken lexeme rest place =
      if lexeme.contains '.' then .ok ⟨.float, String.ofList lexeme, place⟩
      else if Numeral.decimal lexeme < Numeral.limit then .ok ⟨.int, String.ofList lexeme, place⟩
      else .error ⟨.numberParseError (String.ofList lexeme), place⟩ := by
  have hsuffix : rest.head?.filter Pattern.isWordStart = none := by
    rw [Option.filter_eq_none_iff]
    exact fun c hc hstart => Pattern.not_isWhiteSpace_of_isWordStart hstart (hrest c hc)
  unfold Pattern.numberToken
  rw [hsuffix]

theorem not_contains_point {ds : List Char} (h : Numeral.IsDigits ds) :
    ds.contains '.' = false := by
  rw [List.contains_eq_mem, decide_eq_false_iff_not]
  exact fun hmem => absurd (h.2 '.' hmem) (by decide)

section
variable {text : String} (hrest : ∀ c ∈ rest.head?, Text.isWhiteSpace c)
include hrest

/-- What a word, a number or a mark spells is read as it is. -/
theorem scan_of_matches {p : Pattern} {t : Token} (hp : p ∈ Pattern.table) (hsolid : p.solid)
    (hmatches : p.Matches text.toList rest) (hread : p.read text.toList rest place = .ok (some t)) :
    Token.scan ⟨text.toList ++ rest, place⟩ =
      (t :: ·) <$> Token.scan ⟨rest, place.afterAll text.toList⟩ := by
  obtain ⟨c, cs, hcs, -⟩ := hmatches.exists_cons hp
  have hne : text.toList ≠ [] := by
    rw [hcs]
    exact List.cons_ne_nil c cs
  exact scan_of_read hne (hmatches.first?_eq hp hsolid hrest) hread

theorem Legal.scan {w : Word} (hw : w.Legal) :
    Token.scan ⟨w.spelling ++ rest, place⟩ =
      (⟨w.kind, w.text, place⟩ :: ·) <$> Token.scan ⟨rest, place.afterAll w.spelling⟩ := by
  cases hw with
  | @word c cs text hc hcs htext =>
      rw [spelling_eq (TokenKind.ofWord_ne_string text)]
      refine scan_of_matches hrest (p := .word) (by decide) rfl ?_ ?_
      · rw [htext]
        exact .word hc hcs
      · rw [Pattern.read, String.ofList_toList]
  | @int text hds hlimit =>
      rw [spelling_eq (by simp)]
      refine scan_of_matches hrest (p := .number) (by decide) rfl (.integer hds) ?_
      rw [Pattern.read, numberToken_eq hrest, not_contains_point hds, if_neg Bool.false_ne_true,
        if_pos hlimit, String.ofList_toList]
      rfl
  | @float whole fraction text hwhole hfraction htext =>
      rw [spelling_eq (by simp)]
      refine scan_of_matches hrest (p := .number) (by decide) rfl ?_ ?_
      · rw [htext]
        exact .float hwhole hfraction
      · have hpoint : text.toList.contains '.' = true := by simp [htext]
        rw [Pattern.read, numberToken_eq hrest, hpoint, if_pos rfl, String.ofList_toList]
        rfl
  | @string text =>
      have hstring := Token.readsUpTo_string (escaped_escape text.toList) rest place
      rw [String.ofList_toList] at hstring
      exact hstring.scan_eq
  | @mark text kind hmem =>
      have hkind := (Pattern.kind_of_mark_mem hmem).2.2
      rw [spelling_eq hkind]
      exact scan_of_matches hrest hmem rfl .mark rfl

end

/-- The words, each with a space before it. -/
def spaced (ws : List Word) : List Char := ws.flatMap fun w => ' ' :: w.spelling

theorem lineOf_cons (w : Word) (ws : List Word) : lineOf (w :: ws) = w.spelling ++ spaced ws := by
  unfold lineOf
  induction ws generalizing w with
  | nil => simp [spaced]
  | cons v ws ih =>
      rw [List.map_cons, List.map_cons, List.intercalate_cons_cons, ← List.map_cons, ih]
      simp [spaced]

theorem isWhiteSpace_of_mem_head?_spaced (ws : List Word) :
    ∀ c ∈ (spaced ws).head?, Text.isWhiteSpace c := by
  cases ws with
  | nil => simp [spaced]
  | cons w ws =>
      rintro _ ⟨⟩
      decide

/-- The text is read as tokens with these words, and an end mark. -/
def ReadsAs (cs : List Char) (ws : List Word) : Prop :=
  ∀ place, ∃ body last,
    Token.scan ⟨cs, place⟩ = .ok (body ++ [.endOfInput last]) ∧ body.map Token.word = ws

theorem Legal.readsAs_cons {w : Word} {ws : List Word} (hw : w.Legal)
    (hws : ReadsAs (spaced ws) ws) : ReadsAs (w.spelling ++ spaced ws) (w :: ws) := by
  intro place
  obtain ⟨body, last, hscan, rfl⟩ := hws (place.afterAll w.spelling)
  refine ⟨⟨w.kind, w.text, place⟩ :: body, last, ?_, rfl⟩
  rw [hw.scan (isWhiteSpace_of_mem_head?_spaced _), hscan]
  rfl

theorem readsAs_spaced {ws : List Word} (hws : ∀ w ∈ ws, w.Legal) : ReadsAs (spaced ws) ws := by
  induction ws with
  | nil =>
      intro place
      exact ⟨[], place, by rw [spaced, List.flatMap_nil, Token.scan]; rfl, rfl⟩
  | cons w ws ih =>
      obtain ⟨hw, hws⟩ := List.forall_mem_cons.mp hws
      intro place
      have hskip : Token.scan ⟨spaced (w :: ws), place⟩ =
          Token.scan ⟨w.spelling ++ spaced ws, place.afterAll [' ']⟩ :=
        scan_blanks (w := [' ']) (List.forall_mem_singleton.mpr rfl)
      rw [hskip]
      exact hw.readsAs_cons (ih hws) _

/-- Words with spaces between them are read back as they were. -/
theorem readsAs_lineOf {ws : List Word} (hws : ∀ w ∈ ws, w.Legal) : ReadsAs (lineOf ws) ws := by
  cases ws with
  | nil => exact readsAs_spaced hws
  | cons w ws =>
      obtain ⟨hw, hws⟩ := List.forall_mem_cons.mp hws
      rw [lineOf_cons]
      exact hw.readsAs_cons (readsAs_spaced hws)

end Word

end ScriptFront
