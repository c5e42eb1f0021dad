import ScriptFront.Compilation
import ScriptFront.Proofs.Program.ErrorPosition
import ScriptFront.Proofs.Program.Faults
import ScriptFront.Proofs.Program.Orderly
import ScriptFront.Proofs.Token.Origins

/-!
# The stages of a compilation keep apart

Whatever a compilation reports comes from one stage only, and is of the kind that this
stage reports. So the kind of a diagnostic tells whether there are tokens, and with it
which line of the program is to be shown.
-/
namespace ScriptFront

namespace Compilation

/-- The first analysis of a program. -/
def declared (p : Program) : Reported (Program × SymbolTable) :=
  (p.declare .primitives).run .empty

/-- The second analysis of a program, behind the first. -/
def checked (p : Program) : Reported Program :=
  (declared p).value.1.check .primitives (declared p).value.2

variable {source : String} {tokens : List Token} {p : Program} {d : Diagnostic}

/-! ## What is left of each stage -/

theorem ofSource_of_lexing (h : Token.ofSource source = .error d) :
    ofSource source = failed [] [d] := by
  unfold ofSource
  rw [h]

theorem ofSource_of_parsing (h : Token.ofSource source = .ok tokens)
    (hp : Program.ofTokens tokens = .error d) : ofSource source = failed tokens [d] := by
  unfold ofSource
  rw [h]
  dsimp only
  rw [hp]

theorem ofSource_of_program (h : Token.ofSource source = .ok tokens)
    (hp : Program.ofTokens tokens = .ok p) :
    ofSource source = ofProgram tokens p.cleanup.value := by
  unfold ofSource
  rw [h]
  dsimp only
  rw [hp]

/-- An analysed program ends in one of three ways. -/
theorem ofProgram_cases (tokens : List Token) (p : Program) :
    (declared p).diagnostics ≠ [] ∧
        ofProgram tokens p = failed tokens (declared p).diagnostics ∨
      (declared p).diagnostics = [] ∧ (checked p).diagnostics ≠ [] ∧
        ofProgram tokens p = failed tokens (checked p).diagnostics ∨
      (declared p).diagnostics = [] ∧ (checked p).diagnostics = [] ∧ ∃ a,
        ofProgram tokens p = ⟨tokens, [], some a⟩ := by
  have heq : ofProgram tokens p =
      if (declared p).diagnostics.isEmpty then
        if (checked p).diagnostics.isEmpty then
          ⟨tokens, [], some ⟨(checked p).value, (declared p).value.2, .primitives⟩⟩
        else failed tokens (checked p).diagnostics
      else failed tokens (declared p).diagnostics := rfl
  rw [heq]
  split_ifs with hdeclared hchecked
  · rw [List.isEmpty_iff] at hdeclared hchecked
    exact .inr (.inr ⟨hdeclared, hchecked, _, rfl⟩)
  · rw [List.isEmpty_iff] at hdeclared hchecked
    exact .inr (.inl ⟨hdeclared, hchecked, rfl⟩)
  · rw [List.isEmpty_iff] at hdeclared
    exact .inl ⟨hdeclared, rfl⟩

/-! ## Which stage a diagnostic comes from -/

open Text (OneLine)

/-- The names in the program of a source are in one line each. -/
theorem oneLine_names (h : Token.ofSource source = .ok tokens)
    (hp : Program.ofTokens tokens = .ok p) : ∀ n ∈ p.names, OneLine n.text := by
  intro n hn
  obtain ⟨body, place, rfl, -, hspelled⟩ := Program.exists_spelledBy h hp
  obtain ⟨hmem, hkind⟩ := hspelled.isNameIn hn
  exact Token.oneLine_of_scan h n (by simp [hmem]) (by simp [hkind])

theorem oneLine_nameOf (type : TypeId) : OneLine (TypeTable.primitives.nameOf type) := by
  have hnames : ∀ info ∈ TypeTable.primitives.types, OneLine info.name := by decide
  unfold TypeTable.nameOf TypeTable.info?
  cases h : TypeTable.primitives.types[type.index]? with
  | none => decide
  | some info => exact hnames info (List.mem_of_getElem? h)

/-- A source that cannot be parsed is refused in a production of the language. -/
theorem fits_of_parsing (h : Token.ofSource source = .ok tokens)
    (hp : Program.ofTokens tokens = .error d) : d.fault.Fits .parsing OneLine := by
  obtain ⟨body, place, rfl, -⟩ := Token.ofSource_ok h
  have hproductions : ∀ s ∈ Parser.productions, OneLine s := by decide
  have hstart : (ParserState.ofTokens (body ++ [.endOfInput place]) "program").Orderly :=
    ParserState.orderly_ofTokens (Token.numeric_of_scan h) (by decide)
  obtain ⟨hstate, -⟩ := Parser.program_orderly _ hstart
  rw [(Parser.program_reports.result_eq_error hp).2]
  refine ⟨ParserState.stage?_syntaxError _, fun s hs => ?_⟩
  rw [ParserState.texts_syntaxError, List.mem_singleton] at hs
  rw [hs]
  exact hproductions _ hstate.furthest

theorem fits_of_declared (h : Token.ofSource source = .ok tokens)
    (hp : Program.ofTokens tokens = .ok p) :
    ∀ d ∈ (declared p.cleanup.value).diagnostics, d.fault.Fits .declaring OneLine := by
  have hnames := oneLine_names h hp
  rw [← p.names_cleanup] at hnames
  exact Program.declare_raises (fun s hs => hs.append (by decide)) hnames

theorem fits_of_checked (h : Token.ofSource source = .ok tokens)
    (hp : Program.ofTokens tokens = .ok p) :
    ∀ d ∈ (checked p.cleanup.value).diagnostics, d.fault.Fits .checking OneLine := by
  have hnames := oneLine_names h hp
  have hdeclared : (declared p.cleanup.value).value.1.names = p.cleanup.value.names :=
    p.cleanup.value.names_declare.post
  rw [← p.names_cleanup, ← hdeclared] at hnames
  exact Program.check_raises oneLine_nameOf hnames

/-- Once there are tokens, the compilation keeps them, and what it reports belongs to a
later stage. -/
theorem ofSource_of_tokens (h : Token.ofSource source = .ok tokens) :
    (ofSource source).tokens = tokens ∧ ∀ d ∈ (ofSource source).diagnostics,
      ∃ stage, stage ≠ .lexing ∧ d.fault.Fits stage OneLine := by
  cases hp : Program.ofTokens tokens with
  | error e =>
      rw [ofSource_of_parsing h hp]
      refine ⟨rfl, fun d hd => ⟨.parsing, by decide, ?_⟩⟩
      obtain rfl := List.mem_singleton.mp hd
      exact fits_of_parsing h hp
  | ok p =>
      rw [ofSource_of_program h hp]
      rcases ofProgram_cases tokens p.cleanup.value with
        ⟨-, heq⟩ | ⟨-, -, heq⟩ | ⟨-, -, a, heq⟩
      · rw [heq]
        exact ⟨rfl, fun d hd => ⟨.declaring, by decide, fits_of_declared h hp d hd⟩⟩
      · rw [heq]
        exact ⟨rfl, fun d hd => ⟨.checking, by decide, fits_of_checked h hp d hd⟩⟩
      · rw [heq]
        exact ⟨rfl, nofun⟩

theorem not_isLexical_of_tokens (h : Token.ofSource source = .ok tokens)
    (hd : d ∈ (ofSource source).diagnostics) : ¬ d.fault.isLexical = true := by
  obtain ⟨stage, hne, hfits⟩ := (ofSource_of_tokens h).2 d hd
  rw [Fault.isLexical_iff, hfits.stage, Option.some.injEq]
  exact hne

/-- How the stages of the compilation of a text keep apart. -/
structure Staged (source : String) : Prop where
  /-- There is an artifact exactly if nothing is wrong. -/
  artifact : (ofSource source).artifact?.isSome ↔ (ofSource source).diagnostics = []
  /-- There are no tokens exactly if the text could not be cut into tokens. -/
  tokens : (ofSource source).tokens = [] ↔ ∃ d, Token.ofSource source = .error d
  lexing : ∀ d, Token.ofSource source = .error d →
    (ofSource source).diagnostics = [d] ∧ d.fault.isLexical
  parsing : ∀ tokens d, Token.ofSource source = .ok tokens →
    Program.ofTokens tokens = .error d →
    (ofSource source).diagnostics = [d] ∧ d.fault.stage? = some .parsing
  /-- A program is reported on by one analysis. -/
  analyses : ∀ tokens p, Token.ofSource source = .ok tokens →
    Program.ofTokens tokens = .ok p →
    (declared p.cleanup.value).diagnostics ≠ [] ∧
        (ofSource source).diagnostics = (declared p.cleanup.value).diagnostics ∧
        (∀ d ∈ (ofSource source).diagnostics, d.fault.stage? = some .declaring) ∨
      (declared p.cleanup.value).diagnostics = [] ∧
        (ofSource source).diagnostics = (checked p.cleanup.value).diagnostics ∧
        ∀ d ∈ (ofSource source).diagnostics, d.fault.stage? = some .checking
  /-- The kind of a diagnostic tells whether there are tokens. -/
  isLexical : ∀ d ∈ (ofSource source).diagnostics,
    d.fault.isLexical = true ↔ ∃ e, Token.ofSource source = .error e
  /-- A line is taken from the source exactly if there are no tokens. -/
  rendered : ∀ file, (ofSource source).render source file =
    (ofSource source).diagnostics.map fun d =>
      match Token.ofSource source with
      | .error _ => d.renderFromSource file source
      | .ok tokens => d.renderFromTokens file tokens
  /-- No number that has become a token is out of range later. -/
  numbers : ∀ tokens d, Token.ofSource source = .ok tokens →
    Program.ofTokens tokens = .error d ∨ Expr.ofTokens tokens = .error d →
    ∀ text, d.fault ≠ .numberParseError text
  /-- The result of a function can always be declared. -/
  results : ∀ (p : Program) types t, ∀ d ∈ ((p.declare types).run t).diagnostics,
    ∀ function, d.fault ≠ .returnValueAlreadyDeclared function

theorem artifact_ofProgram (tokens : List Token) (p : Program) :
    (ofProgram tokens p).artifact?.isSome ↔ (ofProgram tokens p).diagnostics = [] := by
  rcases ofProgram_cases tokens p with ⟨hne, heq⟩ | ⟨-, hne, heq⟩ | ⟨-, -, a, heq⟩
  · simp [heq, failed, hne]
  · simp [heq, failed, hne]
  · simp [heq]

/-- The stages of each compilation keep apart. -/
theorem ofSource_staged (source : String) : Staged source where
  artifact := by
    cases h : Token.ofSource source with
    | error d => simp [ofSource_of_lexing h, failed]
    | ok tokens =>
        cases hp : Program.ofTokens tokens with
        | error d => simp [ofSource_of_parsing h hp, failed]
        | ok p =>
            rw [ofSource_of_program h hp]
            exact artifact_ofProgram _ _
  tokens := by
    cases h : Token.ofSource source with
    | error d => simp [ofSource_of_lexing h, failed]
    | ok tokens =>
        obtain ⟨body, place, hbody, -⟩ := Token.ofSource_ok h
        simp [(ofSource_of_tokens h).1, hbody]
  lexing d h := by
    rw [ofSource_of_lexing h, Fault.isLexical_iff]
    exact ⟨rfl, Token.stage?_of_scan h⟩
  parsing tokens d h hp := by
    rw [ofSource_of_parsing h hp]
    exact ⟨rfl, (fits_of_parsing h hp).stage⟩
  analyses tokens p h hp := by
    rw [ofSource_of_program h hp]
    rcases ofProgram_cases tokens p.cleanup.value with
      ⟨hne, heq⟩ | ⟨hclean, -, heq⟩ | ⟨hclean, hchecked, a, heq⟩
    · rw [heq]
      exact .inl ⟨hne, rfl, fun d hd => (fits_of_declared h hp d hd).stage⟩
    · rw [heq]
      exact .inr ⟨hclean, rfl, fun d hd => (fits_of_checked h hp d hd).stage⟩
    · rw [heq, hchecked]
      exact .inr ⟨hclean, rfl, nofun⟩
  isLexical d hd := by
    cases h : Token.ofSource source with
    | error e =>
        rw [ofSource_of_lexing h] at hd
        obtain rfl := List.mem_singleton.mp hd
        simpa [Fault.isLexical_iff] using Token.stage?_of_scan h
    | ok tokens => simp [not_isLexical_of_tokens h hd]
  rendered file := by
    unfold render
    refine List.map_congr_left fun d hd => ?_
    cases h : Token.ofSource source with
    | error e =>
        rw [ofSource_of_lexing h] at hd
        obtain rfl := List.mem_singleton.mp hd
        rw [if_pos ((Fault.isLexical_iff _).mpr (Token.stage?_of_scan h))]
    | ok tokens => rw [if_neg (not_isLexical_of_tokens h hd), (ofSource_of_tokens h).1]
  numbers tokens d h herror text htext := by
    have hlexical : d.fault.isLexical := by rw [htext]; rfl
    obtain ⟨body, place, rfl, -⟩ := Token.ofSource_ok h
    have hstart : ∀ {production}, production ∈ Parser.productions →
        (ParserState.ofTokens (body ++ [.endOfInput place]) production).Orderly :=
      ParserState.orderly_ofTokens (Token.numeric_of_scan h)
    rcases herror with hp | he
    · exact Parser.program_orderly.not_isLexical_of_result (hstart (by decide)) hp hlexical
    · exact Parser.wholeExpression_orderly.not_isLexical_of_result (hstart (by decide)) he hlexical
  results p types t d hd function hfunction := by
    have hfits : (p.declare types).Raises .declaring (fun _ => True) t :=
      Program.declare_raises (fun _ _ => trivial) fun _ _ => trivial
    have hstage := (hfits d hd).stage
    rw [hfunction] at hstage
    cases hstage

end Compilation

end ScriptFront
