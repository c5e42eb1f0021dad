import Mathlib.Tactic.Abel
import ScriptFront.Program.Checking
import ScriptFront.Proofs.Diagnostic.Slots
import ScriptFront.Proofs.Tree.Contents
import ScriptFront.Proofs.Typing.Expressions

/-!
# The slots that expressions fill

A fault is reported at a token of the expression that it is about, or at the token of an
operand or an argument of it. So an expression leaves some slots at its own token to what
contains it: the fault of an argument always, and that of an operand if a type was found.
What has no type leaves nothing, and then what contains it is silent.
-/
namespace ScriptFront

/-! ## Names of faults -/

namespace Fault

/-- The faults that are found when a name is bound. -/
def bindingNames : Multiset String := {"UnknownSymbol", "UsedBeforeDeclaration"}

/-- The faults of a name that is used as a value. -/
def valueNames : Multiset String := {"FunctionUsedAsVariable", "UsedInOwnDefinition"}

/-- The faults of a call as a whole. -/
def callNames : Multiset String := {"NotAFunction", "ArgumentCountMismatch"}

def argumentNames : Multiset String := {"ArgumentTypeMatchError"}

def operandNames : Multiset String := {"OperandTypeError"}

def memberNames : Multiset String := {"UnsupportedOperation"}

/-- The faults that are found when an expression is typed. -/
def typingNames : Multiset String :=
  valueNames + callNames + memberNames + (argumentNames + operandNames)

end Fault

open Fault

open Token (slots slots_append slots_cons slots_mono slots_add_le slots_report_le
  slots_reporting_le)

variable {types : TypeTable} {t : SymbolTable} {scope : ScopeId} {initializing? : Option SymbolId}

/-! ## Binding -/

theorem Ident.bind_slots (preference : Preference) (i : Ident) :
    (i.bind t scope preference).slots ≤ slots [i.token] bindingNames := by
  unfold bind
  split
  · exact slots_reporting_le "UnknownSymbol" rfl (by decide)
  · split
    · exact Multiset.zero_le _
    · dsimp only
      split_ifs
      · exact slots_reporting_le "UsedBeforeDeclaration" rfl (by decide)
      · exact Multiset.zero_le _

theorem Expr.bindAll_slots {es : List Expr}
    (h : ∀ e ∈ es, (e.bindNames t scope).slots ≤ slots e.tokens bindingNames) :
    (bindNames.bindAll t scope es).slots ≤ slots (tokens.tokensAll es) bindingNames := by
  induction es with
  | nil => exact Multiset.zero_le _
  | cons e es ih =>
      rw [bindNames.bindAll, Reported.slots_bind, Reported.slots_bind, Reported.slots_pure,
        add_zero, tokens.tokensAll, slots_append]
      exact add_le_add (h e (by simp)) (ih fun e he => h e (by simp [he]))

theorem Expr.bindNames_slots (e : Expr) :
    (e.bindNames t scope).slots ≤ slots e.tokens bindingNames := by
  induction e using tree_induction with
  | literal => exact Multiset.zero_le _
  | ident i =>
      rw [bindNames, Reported.slots_bind, Reported.slots_pure, add_zero]
      exact i.bind_slots .value
  | unary op operand token type? ih =>
      rw [bindNames, Reported.slots_bind, Reported.slots_pure, add_zero, tokens, slots_cons]
      exact ih.trans (Multiset.le_add_left _ _)
  | binary op left right token type? ihl ihr =>
      rw [bindNames, Reported.slots_bind, tokens, slots_append, slots_cons]
      refine add_le_add ihl ?_
      split_ifs
      · exact Multiset.zero_le _
      · rw [Reported.slots_bind, Reported.slots_pure, add_zero]
        exact ihr.trans (Multiset.le_add_left _ _)
  | call callee args openParen type? ih =>
      rw [bindNames, Reported.slots_bind, Reported.slots_bind, Reported.slots_pure, add_zero,
        tokens, slots_cons, slots_cons openParen]
      refine add_le_add (callee.bind_slots .function) ?_
      exact (bindAll_slots ih).trans (Multiset.le_add_left _ _)

/-! ## Typing -/

namespace Typing

/-- The faults that may still be found at the token of an expression with this type, by what
contains it. -/
def left : Option TypeId → Multiset String
  | none => argumentNames
  | some _ => argumentNames + operandNames

theorem argumentNames_le_left (found? : Option TypeId) : argumentNames ≤ left found? := by
  cases found? with
  | none => exact le_rfl
  | some type => exact Multiset.le_add_right _ _

theorem left_le (found? : Option TypeId) : left found? ≤ argumentNames + operandNames := by
  cases found? with
  | none => exact Multiset.le_add_right _ _
  | some type => exact le_rfl

theorem left_le_typingNames (found? : Option TypeId) : left found? ≤ typingNames :=
  (left_le found?).trans (Multiset.le_add_left _ _)

theorem subscript_slots (array index : TypeId) (place : Token) :
    (subscript types array index place).slots ≤ slots [place] operandNames := by
  unfold subscript
  dsimp only
  split
  · exact slots_reporting_le "OperandTypeError" rfl (by decide)
  · split_ifs
    · exact Multiset.zero_le _
    · exact slots_reporting_le "OperandTypeError" rfl (by decide)

theorem between_slots (op : BinaryOp) (l r : TypeId) (operator : Token) :
    (between types op l r operator).slots +
        slots [operator] (left (between types op l r operator).value) ≤
      slots [operator] typingNames := by
  unfold between
  split
  · next type h =>
      rw [Reported.slots_pure, zero_add]
      exact slots_mono (left_le_typingNames _)
  · next h =>
      have hname : "OperandTypeError" ∈ operandNames := by decide
      refine (add_le_add_left (slots_reporting_le _ rfl hname) _).trans (slots_add_le ?_)
      exact (by decide : operandNames + left none ≤ typingNames)

/-- An operator between operands fills slots of its own, or the slot of its right operand. -/
theorem binary_slots (op : BinaryOp) (l? r? : Option TypeId) (operator place : Token) :
    (binary types op l? r? operator place).slots +
        slots [operator] (left (binary types op l? r? operator place).value) ≤
      slots [place] (left r?) + slots [operator] typingNames := by
  unfold binary
  split
  · split_ifs
    · refine add_le_add ((subscript_slots _ _ _).trans ?_) (slots_mono (left_le_typingNames _))
      exact slots_mono (Multiset.le_add_left _ _)
    · exact (between_slots _ _ _ _).trans (Multiset.le_add_left _ _)
  · rw [Reported.slots_pure, zero_add]
    exact (slots_mono (left_le_typingNames _)).trans (Multiset.le_add_left _ _)

/-- An operator in front of an operand fills the slot of the operand, if that has a type. -/
theorem unary_slots (op : UnaryOp) (operand? : Option TypeId) (place : Token) :
    (unary types op operand? place).slots ≤ slots [place] (left operand?) := by
  unfold unary
  split
  · exact Multiset.zero_le _
  · split_ifs
    · exact Multiset.zero_le _
    · have hname : "OperandTypeError" ∈ operandNames := by decide
      exact (slots_reporting_le _ rfl hname).trans (slots_mono (Multiset.le_add_left _ _))

theorem member_slots (l? : Option TypeId) (dot : Token) :
    (member types l? dot).slots + slots [dot] (left (member types l? dot).value) ≤
      slots [dot] typingNames := by
  unfold member
  split
  · rw [Reported.slots_pure, zero_add]
    exact slots_mono (left_le_typingNames _)
  · have hname : "UnsupportedOperation" ∈ memberNames := by decide
    refine (add_le_add_left (slots_reporting_le _ rfl hname) _).trans (slots_add_le ?_)
    exact (by decide : memberNames + left none ≤ typingNames)

def argumentTokens (args : List (Typed Expr)) : List Token := args.map fun arg => arg.1.token

theorem arguments_slots (index : ℕ) (args : List (Typed Expr))
    (params : List (String × Option TypeId)) :
    (arguments types index args params).slots ≤ slots (argumentTokens args) argumentNames := by
  induction args generalizing index params with
  | nil => exact Multiset.zero_le _
  | cons arg args ih =>
      rw [argumentTokens, List.map_cons, slots_cons]
      cases params with
      | nil => exact Multiset.zero_le _
      | cons param params =>
          unfold arguments
          dsimp only
          split
          · split_ifs
            · rw [Reported.slots_bind]
              exact add_le_add (slots_report_le "ArgumentTypeMatchError" rfl (by decide)) (ih _ _)
            · exact (ih _ _).trans (Multiset.le_add_left _ _)
          · exact (ih _ _).trans (Multiset.le_add_left _ _)

theorem call_slots (callee : Ident) (args : List (Typed Expr)) :
    (call types t callee args).slots ≤
      slots [callee.token] callNames + slots (argumentTokens args) argumentNames := by
  unfold call
  split
  · exact Multiset.zero_le _
  · split_ifs
    · exact (slots_reporting_le "NotAFunction" rfl (by decide)).trans (Multiset.le_add_right _ _)
    · rw [Reported.slots_bind, Reported.slots_bind, Reported.slots_pure, add_zero]
      exact add_le_add (slots_report_le "ArgumentCountMismatch" rfl (by decide))
        (arguments_slots 1 args _)
    · rw [Reported.slots_bind, Reported.slots_pure, add_zero]
      exact (arguments_slots 1 args _).trans (Multiset.le_add_left _ _)

end Typing

theorem Ident.valueType_slots (i : Ident) :
    (i.valueType t initializing?).slots ≤ slots [i.token] valueNames := by
  unfold valueType
  split
  · exact Multiset.zero_le _
  · split_ifs
    · exact slots_reporting_le "FunctionUsedAsVariable" rfl (by decide)
    · exact slots_reporting_le "UsedInOwnDefinition" rfl (by decide)
    · exact Multiset.zero_le _

namespace Expr

open Typing (left left_le argumentNames_le_left left_le_typingNames argumentTokens)

@[simp] theorem token_record (e : Expr) (type? : Option TypeId) :
    (e.record type?).1.token = e.token := by
  cases type? with
  | none => rfl
  | some type => exact token_withType _ e

theorem token_infer (e : Expr) : (e.infer types t initializing?).value.1.token = e.token := by
  cases e with
  | literal => rfl
  | ident | unary | call => exact token_record _ _
  | binary op l r token type? =>
      rw [infer, Reported.value_bind]
      dsimp only
      split_ifs <;> exact token_record _ _

/-- What is reported on an expression, together with what it leaves to what contains it, fits
into its slots. -/
def Fits (types : TypeTable) (t : SymbolTable) (initializing? : Option SymbolId) (e : Expr) :
    Prop :=
  (e.infer types t initializing?).slots +
      slots [e.token] (left (e.infer types t initializing?).value.2) ≤ slots e.tokens typingNames

theorem inferAll_slots {es : List Expr} (h : ∀ e ∈ es, e.Fits types t initializing?) :
    (infer.inferAll types t initializing? es).slots +
        slots (argumentTokens (infer.inferAll types t initializing? es).value) argumentNames ≤
      slots (tokens.tokensAll es) typingNames := by
  induction es with
  | nil => exact Multiset.zero_le _
  | cons e es ih =>
      have hes := ih fun e he => h e (by simp [he])
      have he : (e.infer types t initializing?).slots + slots [e.token] argumentNames ≤
          slots e.tokens typingNames :=
        (add_le_add_right (slots_mono (argumentNames_le_left _)) _).trans (h e (by simp))
      have htokens : argumentTokens (infer.inferAll types t initializing? (e :: es)).value =
          e.token :: argumentTokens (infer.inferAll types t initializing? es).value :=
        congrArg (· :: _) e.token_infer
      rw [htokens, infer.inferAll, Reported.slots_bind, Reported.slots_bind, Reported.slots_pure,
        add_zero, tokens.tokensAll, slots_append, slots_cons, add_add_add_comm]
      exact add_le_add he hes

theorem infer_fits (e : Expr) : e.Fits types t initializing? := by
  unfold Fits
  induction e using tree_induction with
  | literal value token type? =>
      rw [infer, Reported.slots_pure, zero_add]
      exact slots_mono (left_le_typingNames _)
  | ident i =>
      rw [infer, Reported.slots_bind, Reported.slots_pure, add_zero]
      refine (add_le_add i.valueType_slots (slots_mono (left_le _))).trans (slots_add_le ?_)
      decide
  | unary op operand token type? ih =>
      rw [infer, Reported.slots_bind, Reported.slots_bind, Reported.slots_pure, add_zero, tokens,
        slots_cons token operand.tokens, add_comm (slots [token] typingNames)]
      refine add_le_add (le_trans (add_le_add_right ?_ _) ih) (slots_mono (left_le_typingNames _))
      exact operand.token_infer ▸ Typing.unary_slots op _ _
  | binary op l r token type? ihl ihr =>
      have hl : (l.infer types t initializing?).slots ≤ slots l.tokens typingNames :=
        (Multiset.le_add_right _ _).trans ihl
      rw [infer, Reported.slots_bind, Reported.value_bind, tokens, slots_append, add_assoc]
      refine add_le_add hl ?_
      dsimp only
      split_ifs
      · have hmember := @Typing.member_slots types (l.infer types t initializing?).value.2 token
        simp only [Reported.slots_bind, Reported.value_bind, Reported.slots_pure,
          Reported.value_pure, snd_record, add_zero]
        rw [slots_cons token r.tokens]
        exact hmember.trans (Multiset.le_add_right _ _)
      · have hbinary := @Typing.binary_slots types op (l.infer types t initializing?).value.2
          (r.infer types t initializing?).value.2 token r.token
        simp only [Reported.slots_bind, Reported.value_bind, Reported.slots_pure,
          Reported.value_pure, snd_record, add_zero, token_infer]
        rw [slots_cons token r.tokens, add_comm (slots [token] typingNames), add_assoc]
        refine (add_le_add_right hbinary _).trans ?_
        rw [← add_assoc]
        exact add_le_add_left ihr _
  | call callee args openParen type? ih =>
      have hown : slots [callee.token] callNames +
          slots [callee.token] (argumentNames + operandNames) ≤ slots [callee.token] typingNames :=
        slots_add_le (by decide)
      have hargs := inferAll_slots ih
      rw [infer, Reported.slots_bind, Reported.slots_bind, Reported.slots_pure, add_zero, tokens,
        slots_cons callee.token, slots_cons openParen]
      generalize infer.inferAll types t initializing? args = xs at hargs ⊢
      have hcall := @Typing.call_slots types t callee xs.value
      calc _ ≤ xs.slots +
              (slots [callee.token] callNames + slots (argumentTokens xs.value) argumentNames) +
                slots [callee.token] (argumentNames + operandNames) :=
            add_le_add (add_le_add_right hcall _) (slots_mono (left_le _))
        _ = slots [callee.token] callNames + slots [callee.token] (argumentNames + operandNames) +
              (xs.slots + slots (argumentTokens xs.value) argumentNames) := by abel
        _ ≤ _ := add_le_add hown (hargs.trans (Multiset.le_add_left _ _))

/-- What is reported on an expression fits into its slots. -/
theorem infer_slots (e : Expr) :
    (e.infer types t initializing?).slots ≤ slots e.tokens typingNames :=
  (Multiset.le_add_right _ _).trans e.infer_fits

end Expr

end ScriptFront
