import ScriptFront.Proofs.Program.Parts

/-!
# The stages of a compilation and their faults

Four stages can find something wrong with a source text, and each has faults of its
own. Two faults belong to no stage: one is left to the parse of a lone expression, the
other would need a scope that is not new.

A computation raises faults of a stage if everything that it reports is one of them. The
texts of these faults may be restricted, too: a message shows them as they are, where
pieces of the source are quoted.
-/
namespace ScriptFront

inductive Stage where
  | lexing | parsing | declaring | checking
deriving DecidableEq, Repr

namespace Fault

/-- The stage that finds the fault in a source text. -/
def stage? : Fault → Option Stage
  | unrecognisedToken _ | invalidNumberSuffix _ | numberParseError _
  | unterminatedString => some .lexing
  | unexpectedToken _ _ | unexpectedTokenAfter _ _ _ | unexpectedEndOfFile _ => some .parsing
  | unknownType _ | invalidType _ | variableAlreadyDeclared _ | functionAlreadyDeclared _
  | parameterAlreadyDeclared _ _ | breakOutsideLoop => some .declaring
  | unknownSymbol _ | usedBeforeDeclaration _ _ | usedInOwnDefinition _
  | functionUsedAsVariable _ | notAFunction _ | operandTypeError _ _ _
  | unsupportedOperation _ _ | argumentCountMismatch _ _ _ | argumentTypeMatchError _ _ _
  | typeMatchError _ _ | conditionTypeError _ _ | returnTypeMismatch _ _
  | missingReturnValue _ => some .checking
  | unexpectedTokenDetailed _ _ | returnValueAlreadyDeclared _ => none

theorem isLexical_iff (f : Fault) : f.isLexical = true ↔ f.stage? = some .lexing := by
  have h : f.isLexical = (f.stage? == some .lexing) := by cases f <;> rfl
  rw [h, beq_iff_eq]

/-- The texts of the fault that its message shows as they are. -/
def texts : Fault → List String
  | unrecognisedToken _ | invalidNumberSuffix _ | numberParseError _ | unterminatedString
  | breakOutsideLoop => []
  | unexpectedToken _ production | unexpectedTokenAfter _ _ production
  | unexpectedEndOfFile production => [production]
  | unexpectedTokenDetailed _ message => [message]
  | unknownType type | invalidType type => [type]
  | variableAlreadyDeclared name | functionAlreadyDeclared name
  | returnValueAlreadyDeclared name | unknownSymbol name | usedBeforeDeclaration name _
  | usedInOwnDefinition name | functionUsedAsVariable name | notAFunction name
  | argumentCountMismatch name _ _ => [name]
  | parameterAlreadyDeclared parameter function => [parameter, function]
  | operandTypeError operation expected received => [operation, expected, received]
  | unsupportedOperation operation type => [operation, type]
  | argumentTypeMatchError _ expected received | typeMatchError expected received
  | returnTypeMismatch expected received => [expected, received]
  | conditionTypeError statement received => [statement, received]
  | missingReturnValue expected => [expected]

/-- The fault belongs to the stage, and each of its texts is as `N` says. -/
structure Fits (stage : Stage) (N : String → Prop) (f : Fault) : Prop where
  stage : f.stage? = some stage
  texts : ∀ s ∈ f.texts, N s

namespace Fits

variable {stage : Stage} {N : String → Prop} {f : Fault} {a b c : String}

theorem single (hstage : f.stage? = some stage) (htexts : f.texts = [a]) (ha : N a) :
    f.Fits stage N :=
  ⟨hstage, by simp [htexts, ha]⟩

theorem pair (hstage : f.stage? = some stage) (htexts : f.texts = [a, b]) (ha : N a)
    (hb : N b) : f.Fits stage N :=
  ⟨hstage, by simp [htexts, ha, hb]⟩

theorem triple (hstage : f.stage? = some stage) (htexts : f.texts = [a, b, c]) (ha : N a)
    (hb : N b) (hc : N c) : f.Fits stage N :=
  ⟨hstage, by simp [htexts, ha, hb, hc]⟩

end Fits

end Fault

variable {α β : Type} {stage : Stage} {N : String → Prop}

/-! ## Values with diagnostics -/

/-- Whatever is reported belongs to the stage and has texts as `N` says. -/
def Reported.Raises (stage : Stage) (N : String → Prop) (r : Reported α) : Prop :=
  ∀ d ∈ r.diagnostics, d.fault.Fits stage N

namespace Reported.Raises

theorem pure (a : α) : (Pure.pure a : Reported α).Raises stage N := nofun

theorem bind {r : Reported α} {f : α → Reported β} (hr : r.Raises stage N)
    (hf : (f r.value).Raises stage N) : (r >>= f).Raises stage N := by
  intro d hd
  rw [diagnostics_bind, List.mem_append] at hd
  exact hd.elim (hr d) (hf d)

theorem bind_pure {r : Reported α} {f : α → β} (hr : r.Raises stage N) :
    (r >>= fun a => Pure.pure (f a)).Raises stage N :=
  hr.bind (pure _)

theorem report {fault : Fault} {token : Token} (h : fault.Fits stage N) :
    (Reported.report fault token).Raises stage N := by
  intro d hd
  rw [diagnostics_report, List.mem_singleton] at hd
  rw [hd]
  exact h

theorem report_bind {fault : Fault} {token : Token} {f : Unit → Reported β}
    (h : fault.Fits stage N) (hf : (f ()).Raises stage N) :
    (Reported.report fault token >>= f).Raises stage N :=
  (report h).bind hf

theorem ofExcept {x : Except Diagnostic α} (h : ∀ d, x = .error d → d.fault.Fits stage N) :
    (Reported.ofExcept x).Raises stage N := by
  cases x with
  | ok a => exact nofun
  | error e =>
      intro d hd
      obtain rfl := List.mem_singleton.mp hd
      exact h d rfl

end Reported.Raises

/-! ## Declarations -/

/-- Whatever a run from the table reports belongs to the stage and has texts as `N`
says. -/
def Declaring.Raises (stage : Stage) (N : String → Prop) (m : Declaring α) (t : SymbolTable) :
    Prop :=
  (m t).Raises stage N

namespace Declaring.Raises

variable {t : SymbolTable} {m : Declaring α}

theorem pure (a : α) : (Pure.pure a : Declaring α).Raises stage N t := nofun

theorem bind {f : α → Declaring β} (hm : m.Raises stage N t)
    (hf : ∀ a u, (f a).Raises stage N u) : (m >>= f).Raises stage N t := by
  have hrest := hf (m t).value.1 (m t).value.2
  change (m t >>= fun r => f r.1 r.2).Raises stage N
  exact Reported.Raises.bind hm hrest

theorem bind_pure {f : α → β} (hm : m.Raises stage N t) :
    (m >>= fun a => Pure.pure (f a)).Raises stage N t :=
  hm.bind fun _ _ => pure _

theorem report {fault : Fault} {token : Token} (h : fault.Fits stage N) :
    (Declaring.report fault token).Raises stage N t :=
  (Reported.Raises.report h).bind_pure

theorem ofExcept {x : Except Diagnostic α} (h : ∀ d, x = .error d → d.fault.Fits stage N) :
    Raises stage N (StateT.lift (Reported.ofExcept x)) t :=
  (Reported.Raises.ofExcept h).bind_pure

theorem modify_bind {change : SymbolTable → SymbolTable} {f : Unit → Declaring β}
    (h : (f ()).Raises stage N (change t)) :
    (modifyThe SymbolTable change >>= f).Raises stage N t := h

theorem add?_bind {addition : SymbolTable → Option (α × SymbolTable)}
    {f : Option α → Declaring β}
    (h : ∀ a u, addition t = some (a, u) → (f (some a)).Raises stage N u)
    (hnone : addition t = none → (f none).Raises stage N t) :
    (Declaring.add? addition >>= f).Raises stage N t := by
  unfold Raises
  rcases hadd : addition t with _ | ⟨a, u⟩
  · rw [bind_of_silent (add?_of_none hadd)]
    exact hnone hadd
  · rw [bind_of_silent (add?_of_some hadd)]
    exact h a u hadd

end Declaring.Raises

end ScriptFront
