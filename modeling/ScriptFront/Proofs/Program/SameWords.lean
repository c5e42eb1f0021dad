import ScriptFront.Proofs.Program.Parallel
import ScriptFront.Proofs.Program.ParallelChecks
import ScriptFront.Proofs.Program.ParallelDeclarations
import ScriptFront.Proofs.Program.Resolved
import ScriptFront.Proofs.Token.Layout
import ScriptFront.Proofs.Token.Spelling

/-!
# Sources with the same words

Two sources may spell the same words and differ in blanks, comments and escapes. Then
their tokens correspond by their indices, and so does all that is made from them: the
compilations report alike faults at corresponding tokens, or they leave artifacts that
are equal but for the places of tokens.
-/
namespace ScriptFront

/-! ## Tokens -/

namespace Token

variable {tokens tokens' : List Token} {s t : Token}

/-- Both tokens, at the same index, are names in declarations. -/
structure SameDeclaration (tokens tokens' : List Token) (s s' : Token) : Prop where
  sameIndex : SameIndex tokens tokens' s s'
  left : ∃ p, Program.ofTokens tokens = .ok p ∧ p.Declares s
  right : ∃ p, Program.ofTokens tokens' = .ok p ∧ p.Declares s'

theorem position_lt_iff (h : tokens.Pairwise fun s t => s.position < t.position) {i j : ℕ}
    (hs : tokens[i]? = some s) (ht : tokens[j]? = some t) :
    s.position < t.position ↔ i < j := by
  obtain ⟨hi, rfl⟩ := List.getElem?_eq_some_iff.mp hs
  obtain ⟨hj, rfl⟩ := List.getElem?_eq_some_iff.mp ht
  have hlt := List.pairwise_iff_getElem.mp h
  refine ⟨fun hst => ?_, hlt i j hi hj⟩
  by_contra hle
  rcases Nat.eq_or_lt_of_le (Nat.le_of_not_lt hle) with rfl | hji
  · exact Position.lt_irrefl _ hst
  · exact Position.lt_irrefl _ (Position.lt_trans hst (hlt j i hj hi hji))

/-- Lists of the same words are paired by the indices of their tokens. -/
theorem pairing_sameIndex (h : tokens.Pairwise fun s t => s.position < t.position)
    (h' : tokens'.Pairwise fun s t => s.position < t.position)
    (hwords : tokens.map word = tokens'.map word) : Pairing (SameIndex tokens tokens') := by
  have hword : ∀ {s s'}, SameIndex tokens tokens' s s' → s.word = s'.word := by
    rintro s s' ⟨i, hs, hs'⟩
    have hi := congrArg (·[i]?) hwords
    simp only [List.getElem?_map, hs, hs', Option.map_some, Option.some.injEq] at hi
    exact hi
  constructor
  · exact fun hs => congrArg Word.kind (hword hs)
  · exact fun hs => congrArg Word.text (hword hs)
  · rintro s s' t t' ⟨i, hs, hs'⟩ ⟨j, ht, ht'⟩
    rw [position_lt_iff h hs ht, position_lt_iff h' hs' ht']

/-- The token in front of all text. -/
def unplaced (t : Token) : Token := { t with position := .start }

theorem Pairing.unplaced_eq {R : Token → Token → Prop} (hR : Pairing R) {s s' : Token}
    (h : R s s') : s.unplaced = s'.unplaced := by
  rw [unplaced, unplaced, hR.kind_eq h, hR.text_eq h]

theorem forall₂_sameIndex {body body' : List Token} (h : body.length = body'.length)
    (rest rest' : List Token) :
    List.Forall₂ (SameIndex (body ++ rest) (body' ++ rest')) body body' := by
  refine List.forall₂_iff_get.mpr ⟨h, fun i hi hi' => ⟨i, ?_, ?_⟩⟩
  · rw [List.getElem?_append_left hi, List.get_eq_getElem, List.getElem?_eq_getElem hi]
  · rw [List.getElem?_append_left hi', List.get_eq_getElem, List.getElem?_eq_getElem hi']

end Token

/-! ## Compilations -/

/-- The program without the places of its tokens. -/
def Program.unplaced (p : Program) : Program := p.mapTokens Token.unplaced Token.unplaced

section
variable (R D : Token → Token → Prop)

/-- The artifacts differ in the places of tokens only: the programs are equal without
them, with the same types and the same numbers of symbols, and these numbers mean alike
symbols. -/
structure Artifact.Alike (a a' : Artifact) : Prop where
  program : a.program.Alike R a'.program
  unplaced : a.program.unplaced = a'.program.unplaced
  symbols : a.symbols.Alike R D a'.symbols
  types : a.types = a'.types

/-- The compilations end alike: with alike diagnostics in the same order, and both with
an artifact or both without. -/
structure Compilation.Alike (c c' : Compilation) : Prop where
  diagnostics : List.Forall₂ (Diagnostic.Alike R D) c.diagnostics c'.diagnostics
  artifact : Option.Rel (Artifact.Alike R D) c.artifact? c'.artifact?

end

namespace Compilation

variable {R D : Token → Token → Prop}

theorem Alike.isSuccess_eq {c c' : Compilation} (h : c.Alike R D c') :
    c.isSuccess = c'.isSuccess := by
  have hds := h.diagnostics
  unfold isSuccess
  generalize c.diagnostics = ds at hds
  generalize c'.diagnostics = ds' at hds
  cases hds <;> rfl

theorem alike_failed {tokens tokens' : List Token} {ds ds' : List Diagnostic}
    (h : List.Forall₂ (Diagnostic.Alike R D) ds ds') :
    (failed tokens ds).Alike R D (failed tokens' ds') := ⟨h, .none⟩

/-- Alike programs are analysed alike. -/
theorem ofProgram_alike (hR : Token.Pairing R) (hD : ∀ s s', D s s' → R s s') {p p' : Program}
    (h : p.Alike R p') (hnames : ∀ n n', R n n' → p.Declares n → p'.Declares n' → D n n')
    (hcomplete : (p.declare .primitives).Leads .empty fun _ u => u.Complete)
    (tokens tokens' : List Token) :
    (ofProgram tokens p).Alike R D (ofProgram tokens' p') := by
  have hdeclared := h.declare hR .primitives hnames .empty .empty .empty
  unfold ofProgram StateT.run
  unfold Declaring.Leads at hcomplete
  dsimp only
  generalize p.declare .primitives .empty = declared at hdeclared hcomplete
  generalize p'.declare .primitives .empty = declared' at hdeclared
  obtain ⟨⟨q, u⟩, ds⟩ := declared
  obtain ⟨⟨q', u'⟩, ds'⟩ := declared'
  obtain ⟨⟨hq, hu⟩, hds⟩ := hdeclared
  cases hds with
  | cons hd hds => exact alike_failed (.cons hd hds)
  | nil =>
      have hchecked := Program.Alike.check hR hD hu (hcomplete rfl) .primitives hq
      dsimp only at hchecked ⊢
      generalize q.check .primitives u = checked at hchecked
      generalize q'.check .primitives u' = checked' at hchecked
      obtain ⟨r, es⟩ := checked
      obtain ⟨r', es'⟩ := checked'
      obtain ⟨hr, hes⟩ := hchecked
      cases hes with
      | cons he hes => exact alike_failed (.cons he hes)
      | nil =>
          have hunplaced : r.unplaced = r'.unplaced :=
            Program.Alike.mapTokens_eq (fun _ _ hs => hR.unplaced_eq hs) hr
          exact ⟨.nil, .some ⟨hr, hunplaced, hu, rfl⟩⟩

theorem alike_of_words {source source' : String} {tokens tokens' : List Token}
    (h : Token.ofSource source = .ok tokens) (h' : Token.ofSource source' = .ok tokens')
    (hwords : tokens.map Token.word = tokens'.map Token.word) :
    (ofSource source).Alike (Token.SameIndex tokens tokens')
      (Token.SameDeclaration tokens tokens') (ofSource source') := by
  have hlaid : Laid [] source.toList tokens := Token.laid_of_scan rfl h
  have hlaid' : Laid [] source'.toList tokens' := Token.laid_of_scan rfl h'
  have hR := Token.pairing_sameIndex hlaid.increasing hlaid'.increasing hwords
  obtain ⟨body, place, rfl, -⟩ := Token.ofSource_ok h
  obtain ⟨body', place', rfl, -⟩ := Token.ofSource_ok h'
  have hlength : body.length = body'.length := by simpa using congrArg List.length hwords
  have hbody := Token.forall₂_sameIndex hlength [.endOfInput place] [.endOfInput place']
  have hlast : Token.SameIndex (body ++ [.endOfInput place]) (body' ++ [.endOfInput place'])
      (.endOfInput place) (.endOfInput place') :=
    ⟨body.length, by simp, by simp [hlength]⟩
  unfold ofSource
  rw [h, h']
  dsimp only
  rcases Program.ofTokens_alike hR hbody hlast with
    ⟨p, p', hp, hp', hpp⟩ | ⟨d, d', hd, hd', hdd⟩
  · rw [hp, hp']
    refine ofProgram_alike hR (fun _ _ hs => hs.sameIndex) hpp.cleanup ?_ ?_ _ _
    · exact fun n n' hn hdecl hdecl' =>
        ⟨hn, ⟨p, hp, hdecl.of_cleanup⟩, ⟨p', hp', hdecl'.of_cleanup⟩⟩
    · exact (Program.declare_cleanup_leads h hp).mono fun _ _ hleads => hleads.1
  · rw [hd, hd']
    exact alike_failed (.cons (hdd.mono fun _ _ hs => hs.elim) .nil)

/-- Sources with the same words compile alike: both without a fault or both with alike
faults at tokens of the same index. -/
theorem ofSource_alike {source source' : String} {tokens tokens' : List Token}
    (h : Token.ofSource source = .ok tokens) (h' : Token.ofSource source' = .ok tokens')
    (hwords : tokens.map Token.word = tokens'.map Token.word) :
    (ofSource source).isSuccess = (ofSource source').isSuccess ∧
      (ofSource source).Alike (Token.SameIndex tokens tokens')
        (Token.SameDeclaration tokens tokens') (ofSource source') := by
  have halike := alike_of_words h h' hwords
  exact ⟨halike.isSuccess_eq, halike⟩

/-- A use above its declaration, once in the same line and once in the line before. -/
theorem ofSource_alike_of_lines :
    let source := "void f()\x7bx = 1; int x;\x7d"
    let source' := "void f() // x\n\x7b/**/x=1;\nint x;\x7d"
    (ofSource source).diagnostics = [⟨.usedBeforeDeclaration "x" 1, ⟨1, 10⟩⟩] ∧
      (ofSource source').diagnostics = [⟨.usedBeforeDeclaration "x" 3, ⟨2, 6⟩⟩] ∧
      ∃ tokens tokens', Token.ofSource source = .ok tokens ∧
        Token.ofSource source' = .ok tokens' ∧ tokens.map Token.word = tokens'.map Token.word ∧
        (ofSource source).isSuccess = (ofSource source').isSuccess ∧
        (ofSource source).Alike (Token.SameIndex tokens tokens')
          (Token.SameDeclaration tokens tokens') (ofSource source') := by
  intro source source'
  have hds : (ofSource source).diagnostics = [⟨.usedBeforeDeclaration "x" 1, ⟨1, 10⟩⟩] := by
    decide +kernel
  have hds' : (ofSource source').diagnostics = [⟨.usedBeforeDeclaration "x" 3, ⟨2, 6⟩⟩] := by
    decide +kernel
  have hok : (Token.ofSource source).isOk := by decide +kernel
  have hok' : (Token.ofSource source').isOk := by decide +kernel
  have hwords : (Token.ofSource source).map (List.map Token.word) =
      (Token.ofSource source').map (List.map Token.word) := by decide +kernel
  cases h : Token.ofSource source with
  | error d =>
      rw [h] at hok
      cases hok
  | ok tokens =>
      cases h' : Token.ofSource source' with
      | error d =>
          rw [h'] at hok'
          cases hok'
      | ok tokens' =>
          rw [h, h'] at hwords
          have hwords := Except.ok.inj hwords
          exact ⟨hds, hds', tokens, tokens', rfl, rfl, hwords, ofSource_alike h h' hwords⟩

end Compilation

end ScriptFront
