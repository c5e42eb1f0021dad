import ScriptFront.Proofs.Source.Places
import ScriptFront.Proofs.Token.Lexemes
import ScriptFront.Token.Lexer

/-!
# Runs of the lexer

The lexer reads one lexeme after the other, until it comes to the end of the text or to
a place where it is stuck. Its result is made of the tokens on this way, and of the end
mark or the fault that it finds there; so what holds of the tokens of a text is shown by
induction on the run.
-/
namespace ScriptFront

open Source (Scanner)

/-! ## Places of faults -/

namespace Pattern

variable {lexeme following : List Char} {place : Position} {d : Diagnostic}

theorem read_number_eq_error_iff : number.read lexeme following place = .error d ↔
    numberToken lexeme following place = .error d := by
  unfold read
  cases numberToken lexeme following place <;> simp [Except.map]

theorem read_number_eq_some_iff {t : Token} : number.read lexeme following place = .ok (some t) ↔
    numberToken lexeme following place = .ok t := by
  unfold read
  cases numberToken lexeme following place <;> simp [Except.map]

theorem read_number_ne_none : number.read lexeme following place ≠ .ok none := by
  unfold read
  cases numberToken lexeme following place <;> simp [Except.map]

theorem place_of_numberToken (h : numberToken lexeme following place = .error d) :
    ∃ w, d.position = place.afterAll w := by
  unfold numberToken at h
  split at h
  · cases h
    exact ⟨lexeme, rfl⟩
  · dsimp only at h
    split_ifs at h
    cases h
    exact ⟨[], rfl⟩

/-- A fault is reported where its lexeme begins, or behind that. -/
theorem place_of_read {p : Pattern} (h : p.read lexeme following place = .error d) :
    ∃ w, d.position = place.afterAll w := by
  unfold read at h
  cases p with
  | blanks | lineComment | blockComment | word | quotedText | mark => cases h
  | number => exact place_of_numberToken (read_number_eq_error_iff.mp h)
  | openQuote =>
      cases h
      exact ⟨[], rfl⟩

end Pattern

namespace Token

/-! ## Steps and runs -/

/-- One step of the scanner, by the first pattern of the table that takes something. -/
theorem scan_of_first? {lexeme rest : List Char} {place : Position} {p : Pattern}
    (hne : lexeme ≠ []) (h : Pattern.first? (lexeme ++ rest) = some (p, lexeme.length)) :
    scan ⟨lexeme ++ rest, place⟩ = (do
      let found ← p.read lexeme rest place
      let tokens ← scan ⟨rest, place.afterAll lexeme⟩
      return found.toList ++ tokens) := by
  obtain ⟨c, cs, rfl⟩ := List.exists_cons_of_ne_nil hne
  rw [List.cons_append] at h ⊢
  rw [scan, h]
  simp only [List.length_cons, List.take_left, List.drop_left, Scanner.advance,
    List.take_succ_cons, List.drop_succ_cons]

/-- The lexer comes from one place to another, and leaves these tokens on its way. -/
inductive ReadsUpTo : Scanner → List Token → Scanner → Prop
  | here {s : Scanner} : ReadsUpTo s [] s
  | skip {lexeme rest : List Char} {place : Position} {p : Pattern} {tokens : List Token}
      {s : Scanner} :
      lexeme ≠ [] → Pattern.first? (lexeme ++ rest) = some (p, lexeme.length) →
      p.read lexeme rest place = .ok none → ReadsUpTo ⟨rest, place.afterAll lexeme⟩ tokens s →
        ReadsUpTo ⟨lexeme ++ rest, place⟩ tokens s
  | token {lexeme rest : List Char} {place : Position} {p : Pattern} {t : Token}
      {tokens : List Token} {s : Scanner} :
      lexeme ≠ [] → Pattern.first? (lexeme ++ rest) = some (p, lexeme.length) →
      p.read lexeme rest place = .ok (some t) →
      ReadsUpTo ⟨rest, place.afterAll lexeme⟩ tokens s →
        ReadsUpTo ⟨lexeme ++ rest, place⟩ (t :: tokens) s

/-- No lexeme is read at this place, for the reason that the diagnostic gives. -/
inductive Stuck : Scanner → Diagnostic → Prop
  | lexeme {lexeme rest : List Char} {place : Position} {p : Pattern} {d : Diagnostic} :
      lexeme ≠ [] → Pattern.first? (lexeme ++ rest) = some (p, lexeme.length) →
      p.read lexeme rest place = .error d → Stuck ⟨lexeme ++ rest, place⟩ d
  | unrecognised {c : Char} {cs : List Char} {place : Position} :
      (∀ p n, Pattern.first? (c :: cs) = some (p, n + 1) → False) →
      Stuck ⟨c :: cs, place⟩ ⟨.unrecognisedToken (String.singleton c), place⟩

variable {s t u : Scanner} {tokens tokens' : List Token} {d : Diagnostic}

namespace ReadsUpTo

theorem trans (h : ReadsUpTo s tokens t) (h' : ReadsUpTo t tokens' u) :
    ReadsUpTo s (tokens ++ tokens') u := by
  induction h with
  | here => exact h'
  | skip hne hfirst hread _ ih => exact .skip hne hfirst hread (ih h')
  | token hne hfirst hread _ ih => exact .token hne hfirst hread (ih h')

theorem scan_eq (h : ReadsUpTo s tokens t) : scan s = (tokens ++ ·) <$> scan t := by
  induction h with
  | @here s => cases scan s <;> rfl
  | @skip _ _ _ _ _ t hne hfirst hread _ ih =>
      rw [scan_of_first? hne hfirst, hread, ih]
      cases scan t <;> rfl
  | @token _ _ _ _ _ _ t hne hfirst hread _ ih =>
      rw [scan_of_first? hne hfirst, hread, ih]
      cases scan t <;> rfl

/-- The faults of a text are those of what stands behind the run. -/
theorem scan_eq_error_iff (h : ReadsUpTo s tokens t) :
    scan s = .error d ↔ scan t = .error d := by
  rw [h.scan_eq]
  cases scan t with
  | ok => exact ⟨nofun, nofun⟩
  | error => rfl

/-- A run moves along the text. -/
theorem exists_lexemes (h : ReadsUpTo s tokens t) :
    ∃ w, s.rest = w ++ t.rest ∧ t.position = s.position.afterAll w := by
  induction h with
  | here => exact ⟨[], rfl, rfl⟩
  | @skip lexeme _ _ _ _ _ _ _ _ _ ih | @token lexeme _ _ _ _ _ _ _ _ _ _ ih =>
      obtain ⟨w, hrest, hplace⟩ := ih
      refine ⟨lexeme ++ w, ?_, ?_⟩
      · rw [List.append_assoc, ← hrest]
      · rw [hplace, Position.afterAll_append]

end ReadsUpTo

theorem Stuck.scan_eq (h : Stuck s d) : scan s = .error d := by
  cases h with
  | lexeme hne hfirst hread =>
      rw [scan_of_first? hne hfirst, hread]
      rfl
  | unrecognised hfirst =>
      rw [scan]
      split
      · next p n hfound => exact (hfirst p n hfound).elim
      · rfl

theorem Stuck.exists_place (h : Stuck s d) : ∃ w, d.position = s.position.afterAll w := by
  cases h with
  | lexeme _ _ hread => exact Pattern.place_of_read hread
  | unrecognised => exact ⟨[], rfl⟩

/-- From every place the lexer comes to the end of the text, or is stuck somewhere. -/
theorem exists_readsUpTo (s : Scanner) :
    ∃ tokens t, ReadsUpTo s tokens t ∧ (t.rest = [] ∨ ∃ d, Stuck t d) := by
  induction s using scan.induct with
  | case1 place => exact ⟨[], ⟨[], place⟩, .here, .inl rfl⟩
  | case2 c cs place p n hfirst ih =>
      obtain ⟨-, hlength⟩ := Pattern.exists_of_first? hfirst
      obtain ⟨lexeme, rest, heq, hn, -⟩ := Pattern.exists_of_length? hlength
      have hne : lexeme ≠ [] := by
        rintro rfl
        cases hn
      rw [heq, ← hn] at hfirst
      rw [heq, ← Nat.succ_eq_add_one, ← hn, Scanner.advance] at ih
      simp only [List.drop_left, List.take_left] at ih
      rw [heq]
      cases hread : p.read lexeme rest place with
      | error d => exact ⟨[], _, .here, .inr ⟨d, .lexeme hne hfirst hread⟩⟩
      | ok found =>
          obtain ⟨tokens, t, hrun, hend⟩ := ih
          cases found with
          | none => exact ⟨tokens, t, .skip hne hfirst hread hrun, hend⟩
          | some token => exact ⟨token :: tokens, t, .token hne hfirst hread hrun, hend⟩
  | case3 c cs place hfirst => exact ⟨[], _, .here, .inr ⟨_, .unrecognised hfirst⟩⟩

/-! ## The result of the lexer -/

/-- A text that has tokens is read up to its end, and the end mark is behind them. -/
theorem exists_run_of_scan (h : scan s = .ok tokens) :
    ∃ body place, tokens = body ++ [endOfInput place] ∧ ReadsUpTo s body ⟨[], place⟩ := by
  obtain ⟨body, ⟨rest, place⟩, hrun, rfl | ⟨d, hstuck⟩⟩ := exists_readsUpTo s
  · rw [hrun.scan_eq, scan] at h
    exact ⟨body, place, (Except.ok.inj h).symm, hrun⟩
  · rw [hrun.scan_eq, hstuck.scan_eq] at h
    cases h

/-- A text with a fault is read up to the place where the lexer is stuck. -/
theorem exists_stuck_of_scan (h : scan s = .error d) :
    ∃ tokens t, ReadsUpTo s tokens t ∧ Stuck t d := by
  obtain ⟨tokens, ⟨rest, place⟩, hrun, rfl | ⟨d', hstuck⟩⟩ := exists_readsUpTo s
  · rw [hrun.scan_eq_error_iff, scan] at h
    cases h
  · rw [hrun.scan_eq_error_iff, hstuck.scan_eq] at h
    obtain rfl := Except.error.inj h
    exact ⟨tokens, _, hrun, hstuck⟩

/-- No fault stands before the text in which it is found. -/
theorem place_of_scan (h : scan s = .error d) : ∃ w, d.position = s.position.afterAll w := by
  obtain ⟨tokens, t, hrun, hstuck⟩ := exists_stuck_of_scan h
  obtain ⟨v, -, hv⟩ := hrun.exists_lexemes
  obtain ⟨w, hw⟩ := hstuck.exists_place
  exact ⟨v ++ w, by rw [hw, hv, Position.afterAll_append]⟩

theorem place_lt_of_scan {w rest : List Char} {place : Position} (hw : w ≠ [])
    (h : scan ⟨rest, place.afterAll w⟩ = .error d) : place < d.position := by
  obtain ⟨v, hv⟩ := place_of_scan h
  rw [hv, ← Position.afterAll_append]
  exact place.lt_afterAll (List.append_ne_nil_of_left_ne_nil hw v)

/-- A pattern of the table has read the token. -/
inductive Originates (t : Token) : Prop
  | intro {p : Pattern} {lexeme rest following : List Char} {place : Position} :
      p ∈ Pattern.table → p.Matches lexeme rest →
      p.read lexeme following place = .ok (some t) → Originates t

theorem ReadsUpTo.originates (h : ReadsUpTo s tokens t) : ∀ u ∈ tokens, u.Originates := by
  induction h with
  | here => simp
  | skip _ _ _ _ ih => exact ih
  | token _ hfirst hread _ ih =>
      obtain ⟨hmem, hmatches⟩ := Pattern.matches_of_first? hfirst
      exact List.forall_mem_cons.mpr ⟨.intro hmem hmatches hread, ih⟩

end Token

end ScriptFront
