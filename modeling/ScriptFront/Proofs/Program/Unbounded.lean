import ScriptFront.Proofs.Program.Descent
import ScriptFront.Proofs.Program.Recognition
import ScriptFront.Proofs.Stmt.Lockstep

/-!
# Bounds decide nothing

Repetition and nesting are bounded by numbers, and each level of a bounded parser is run
with one less. It is run behind a token that has been read, though, so a bound that exceeds
the number of tokens left exceeds it again on the next level, and never comes to an end. A
bounded parser is settled: all such bounds lead to the same outcome. So the levels are the
parser itself, and what a parser of the language does is what its procedure says, whose
calls are calls of the parsers of the language.
-/
namespace ScriptFront

open Procedure (run_congr run_onward)

variable {α β : Type}

/-! ## Parsers that go on -/

namespace Parser

variable {p : Parser α}

theorem Recognizes.onward {D : α → List Token → Prop} (h : p.Recognizes D) : p.Onward :=
  fun s hs => (h s hs).follows

theorem Onward.bind {f : α → Parser β} (hp : p.Onward) (hf : ∀ a, (f a).Onward) :
    (p >>= f).Onward := by
  intro s hs
  have hrun := hp s hs
  rw [bind_apply]
  cases hr : p s with
  | mk o t =>
      rw [hr] at hrun
      cases o with
      | matched a => exact hrun.trans (hf a t (hrun.ready hs))
      | noMatch => exact hrun
      | failed d => exact hrun

theorem Onward.bounded {f : ℕ → Parser α} (h : ∀ n, (f n).Onward) : (Parser.bounded f).Onward :=
  fun s hs => h _ s hs

theorem Onward.currentKind_bind {f : TokenKind → Parser α} (h : ∀ k, (f k).Onward) :
    (currentKind >>= f).Onward :=
  fun s hs => h _ s hs

theorem Onward.advance_bind {f : Token → Parser α} (h : ∀ t, (f t).Onward) :
    (advance >>= f).Onward :=
  fun s hs => s.follows_advanced.trans (h _ _ (s.follows_advanced.ready hs))

theorem Onward.pure (a : α) : (Pure.pure a : Parser α).Onward := fun s _ => .refl s

theorem Onward.stop : (Parser.stop : Parser α).Onward := fun s _ => .refl s

theorem expression_onward (power : BindingPower) : (expression power).Onward :=
  (readsExprs_expression.recognizes power).onward

theorem statement_onward : statement.Onward := readsStmts_statement.tries.recognizes.onward

theorem statement_consumes : statement.Consumes := ReadsStmts.consumes readsStmts_statement

theorem wholeExpression_onward : wholeExpression.Onward := by
  refine (expression_onward .lowest).bind fun e => .currentKind_bind fun kind => ?_
  split_ifs
  · exact .pure e
  · exact .advance_bind fun _ => .stop

end Parser

/-- All of the parsers go on from where they start. -/
structure Meanings.Onward (m : Meanings) : Prop where
  expression (power : BindingPower) : (m.expression power).Onward
  operators (power : BindingPower) (left : Expr) : (m.operators power left).Onward
  arguments : m.arguments.Onward
  statement : m.statement.Onward
  statements : m.statements.Onward

theorem ParserCall.parserAmong_onward {m : Meanings} (h : m.Onward) :
    ∀ c, (parserAmong m c).Onward
  | program => Parser.program_recognizes.onward
  | globals => Parser.global_tries.many.onward
  | moreParams =>
      (Parser.nextItem_tries Parser.param_tries.recognizes Parser.param_inhabited).many.onward
  | statement => h.statement
  | statements => h.statements
  | moreArguments =>
      (Parser.nextItem_tries Parser.expression?_tries.recognizes (Expr.of_inhabited _)).many.onward
  | wholeExpression => Parser.wholeExpression_onward
  | expression power => h.expression power
  | operators power left => h.operators power left
  | arguments => h.arguments

/-! ## Going on reads tokens -/

section
variable {s t : ParserState}

theorem ParserState.Precedes.remaining_le (h : s.Precedes t) :
    t.cursor.remaining ≤ s.cursor.remaining := by
  have := h.index
  rw [TokenCursor.remaining, TokenCursor.remaining, h.stream]
  omega

theorem ParserState.StrictlyPrecedes.remaining_lt (h : s.StrictlyPrecedes t) (hs : s.Ready) :
    t.cursor.remaining < s.cursor.remaining := by
  have := h.index_lt
  have := hs.inside
  rw [TokenCursor.remaining, TokenCursor.remaining, h.stream]
  omega

/-- A call that is not of lower rank is made behind a token that has been read. -/
theorem ParserCall.Descends.strictlyPrecedes {c c' : ParserCall} (h : c.Descends s c' t)
    (hrank : c.routine.rank ≤ c'.routine.rank) : s.StrictlyPrecedes t :=
  ⟨h.toPrecedes, h.descends.resolve_right hrank.not_gt⟩

end

/-- Bounds greater than the number of tokens that are left make no difference. -/
def Settled (f : ℕ → Parser α) : Prop :=
  ∀ (s : ParserState), s.Ready → ∀ {n m : ℕ}, s.cursor.remaining < n → s.cursor.remaining < m →
    f n s = f m s

theorem Settled.bounded {f : ℕ → Parser α} (h : Settled f) {s : ParserState} (hs : s.Ready)
    {n : ℕ} (hn : s.cursor.remaining < n) : f n s = Parser.bounded f s :=
  h s hs hn (Nat.lt_succ_self _)

/-- Parsers by recursion on a bound are settled if a level only runs the level below where
less tokens are left. -/
theorem Settled.of_levels {ι : Type} (f : ι → ℕ → Parser α)
    (hstep : ∀ n m i (s : ParserState), s.Ready →
      (∀ i (t : ParserState), t.Ready → t.cursor.remaining < s.cursor.remaining →
        f i n t = f i m t) → f i (n + 1) s = f i (m + 1) s) (i : ι) : Settled (f i) := by
  intro s hs n m hn hm
  induction n generalizing m s i with
  | zero => exact absurd hn (Nat.not_lt_zero _)
  | succ n ih =>
      obtain ⟨m, rfl⟩ := Nat.exists_eq_succ_of_ne_zero (Nat.ne_zero_of_lt hm)
      exact hstep n m i s hs fun i t ht hless => ih i t ht (by omega) (by omega)

/-! ## Repetitions -/

namespace Parser

variable {p p' : Parser α} {more more' : Parser (List α)} {s : ParserState}

/-- What follows an item is run behind the item only. -/
theorem orNothing_congr (hs : s.Ready) (ho : p.Onward) (hitem : p s = p' s)
    (hmore : ∀ a t, p s = (.matched a, t) → s.Follows t → more t = more' t) :
    p.orNothing more s = p'.orNothing more' s := by
  have hrun := ho s hs
  rw [orNothing, orNothing, bind_apply, bind_apply, optional, optional, ← hitem]
  cases hr : p s with
  | mk o t =>
      rw [hr] at hrun
      cases o with
      | noMatch => rfl
      | failed d => rfl
      | matched a =>
          dsimp only
          rw [bind_apply, bind_apply, hmore a t hr hrun]

/-- Each further item is read behind a token that has been read. -/
theorem manyUpTo_settled (ho : p.Onward) (hread : p.Consumes) : Settled p.manyUpTo := by
  refine Settled.of_levels (fun (_ : Unit) => p.manyUpTo) (fun n m _ s hs ih => ?_) ()
  refine orNothing_congr hs ho rfl fun a t ht hfollows => ?_
  exact ih () t (hfollows.ready hs) (hread s a t hs ht)

theorem many_eq (ho : p.Onward) (hread : p.Consumes) (hs : s.Ready) :
    p.many s = p.orNothing p.many s := by
  refine orNothing_congr hs ho rfl fun a t ht hfollows => ?_
  exact (manyUpTo_settled ho hread).bounded (hfollows.ready hs) (hread s a t hs ht)

theorem many_congr (hs : s.Ready) (ho : p.Onward)
    (h : ∀ t, s.Precedes t → p t = p' t) : p.many s = p'.many s := by
  rw [many, many, bounded_apply, bounded_apply]
  generalize s.cursor.remaining + 1 = n
  induction n generalizing s with
  | zero => rfl
  | succ n ih =>
      exact orNothing_congr hs ho (h s (.refl s)) fun a t _ hfollows =>
        ih (hfollows.ready hs) fun u htu => h u (hfollows.precedes.trans htu)

end Parser

/-! ## Levels -/

/-- The parsers that the parser for the expressions inside an expression gives rise to. -/
def Meanings.ofExpression (sub : BindingPower → Parser Expr) : Meanings where
  expression := sub
  operators power left := Parser.bounded fun rounds => Parser.climb sub power rounds left
  arguments := Parser.bounded (Continuation.arguments sub)
  statement := Parser.statement
  statements := Parser.many Parser.statement

/-- The same, where a chain is continued by at most so many operators. -/
def Meanings.ofRounds (sub : BindingPower → Parser Expr) (rounds : ℕ) : Meanings :=
  { ofExpression sub with operators := fun power left => Parser.climb sub power rounds left }

/-- The parsers that are run for a number of arguments. -/
def Meanings.ofArguments (sub : BindingPower → Parser Expr) (bound : ℕ) : Meanings :=
  { Meanings.real with expression := sub, arguments := Continuation.arguments sub bound }

/-- The parsers that the parser for the statements inside a statement gives rise to. -/
def Meanings.ofStatement (sub : Parser Stmt) : Meanings :=
  { Meanings.real with statement := sub, statements := Parser.many sub }

namespace Parser

open ParserCall (parserAmong body)

variable (sub : BindingPower → Parser Expr)

theorem arguments_succ (n : ℕ) :
    Continuation.arguments sub (n + 1) =
      (body .arguments).run (parserAmong (.ofArguments sub n)) := by
  simp [body, Continuation.arguments, Meanings.ofArguments]

theorem climb_succ (power : BindingPower) (n : ℕ) (left : Expr) :
    climb sub power (n + 1) left =
      (body (.operators power left)).run (parserAmong (.ofRounds sub n)) := by
  simp only [body, climb, Procedure.run_bind, Procedure.run_continuation?]
  congr 1
  funext next?
  cases next? with
  | none => rfl
  | some next =>
      simp only [Procedure.run_bind, Steps.run_operators]
      congr 1
      exact Eq.symm (Steps.run_continuation (by rfl) left next.2 next.1)

theorem expressionWithin_succ (power : BindingPower) (n : ℕ) :
    expressionWithin (n + 1) power = (body (.expression power)).run
      (parserAmong (.ofExpression (expressionWithin n))) := by
  simp [body, expressionWithin, Meanings.ofExpression]

theorem statementWithin_succ (n : ℕ) :
    statementWithin (n + 1) =
      (body .statement).run (parserAmong (.ofStatement (statementWithin n))) := by
  have hform : ∀ f, (Steps.form f).run (parserAmong (.ofStatement (statementWithin n))) =
      statementOf (statementWithin n) f := Steps.run_form rfl rfl
  simp [body, statementWithin, Function.comp_def, hform]

end Parser

theorem ParserCall.body_congr {m m' : Meanings} {s : ParserState} {c : ParserCall}
    (hm : m.Onward) (hread : m.statement.Consumes) (hs : s.Ready)
    (h : ∀ c' t, c.Descends s c' t → parserAmong m c' t = parserAmong m' c' t) :
    c.body.run (parserAmong m) s = c.body.run (parserAmong m') s :=
  run_congr fun e he => h e.1 e.2 (body_descends (parserAmong_onward hm) hs hread c e he)

/-! ## Expressions -/

section
variable {sub sub' : BindingPower → Parser Expr} {s : ParserState}

section
variable (hsub : ∀ power, (sub power).Onward)
include hsub

namespace Parser

theorem arguments_onward (n : ℕ) : (Continuation.arguments sub n).Onward := by
  induction n with
  | zero => exact .stop
  | succ n ih =>
      refine (hsub .lowest).bind fun first => .currentKind_bind fun kind => ?_
      split_ifs
      · exact .advance_bind fun _ => ih.bind fun rest => .pure (first :: rest)
      · exact .pure [first]

theorem climb_onward (power : BindingPower) (n : ℕ) (left : Expr) :
    (climb sub power n left).Onward := by
  induction n generalizing power left with
  | zero => exact .stop
  | succ n ih =>
      have hbelow : (Meanings.ofRounds sub n).Onward :=
        ⟨hsub, ih, .bounded (arguments_onward hsub), statement_onward,
          readsStmts_statement.tries.many.onward⟩
      rw [climb_succ]
      exact run_onward (ParserCall.parserAmong_onward hbelow) _

end Parser

theorem Meanings.Onward.ofExpression : (Meanings.ofExpression sub).Onward where
  expression := hsub
  operators power left := .bounded fun n => Parser.climb_onward hsub power n left
  arguments := .bounded (Parser.arguments_onward hsub)
  statement := Parser.statement_onward
  statements := Parser.readsStmts_statement.tries.many.onward

theorem Meanings.Onward.ofRounds (n : ℕ) : (Meanings.ofRounds sub n).Onward :=
  { Onward.ofExpression hsub with
    operators := fun power left => Parser.climb_onward hsub power n left }

end

theorem Meanings.Onward.real : Meanings.real.Onward := ofExpression Parser.expression_onward

theorem Meanings.Onward.ofArguments (hsub : ∀ power, (sub power).Onward) (n : ℕ) :
    (Meanings.ofArguments sub n).Onward :=
  { Onward.real with
    expression := hsub
    arguments := Parser.arguments_onward hsub n }

theorem Meanings.Onward.ofStatement {sub : Parser Stmt} (hsub : ReadsStmts sub) :
    (Meanings.ofStatement sub).Onward :=
  { Meanings.Onward.real with
    statement := hsub.tries.recognizes.onward
    statements := hsub.tries.many.onward }

namespace Parser

open ParserCall (body body_congr parserAmong)

section
variable (hsub : ∀ power, (sub power).Onward) (hs : s.Ready)
  (h : ∀ t, s.Precedes t → ∀ power, sub power t = sub' power t)
include hsub hs h

theorem arguments_congr (n : ℕ) :
    Continuation.arguments sub n s = Continuation.arguments sub' n s := by
  induction n generalizing s with
  | zero => rfl
  | succ n ih =>
      rw [arguments_succ, arguments_succ]
      refine body_congr (.ofArguments hsub n) statement_consumes hs fun c t ht => ?_
      cases c with
      | expression power => exact h t ht.toPrecedes power
      | arguments => exact ih (ht.ready hs) fun u hu => h u (ht.toPrecedes.trans hu)
      | _ => rfl

theorem climb_congr (power : BindingPower) (n : ℕ) (left : Expr) :
    climb sub power n left s = climb sub' power n left s := by
  induction n generalizing power left s with
  | zero => rfl
  | succ n ih =>
      rw [climb_succ, climb_succ]
      refine body_congr (.ofRounds hsub n) statement_consumes hs fun c t ht => ?_
      have hlater : ∀ u, t.Precedes u → ∀ power, sub power u = sub' power u :=
        fun u hu => h u (ht.toPrecedes.trans hu)
      cases c with
      | expression power => exact hlater t (.refl t) power
      | operators power left => exact ih (ht.ready hs) hlater power left
      | arguments => exact arguments_congr hsub (ht.ready hs) hlater _
      | _ => rfl

end

section
variable (hsub : ∀ power, (sub power).Onward)
include hsub

theorem arguments_settled : Settled (Continuation.arguments sub) := by
  refine Settled.of_levels (fun (_ : Unit) => Continuation.arguments sub)
    (fun n m _ s hs ih => ?_) ()
  rw [arguments_succ, arguments_succ]
  refine body_congr (.ofArguments hsub n) statement_consumes hs fun c t ht => ?_
  cases c with
  | arguments => exact ih () t (ht.ready hs) ((ht.strictlyPrecedes le_rfl).remaining_lt hs)
  | _ => rfl

theorem climb_settled (power : BindingPower) (left : Expr) :
    Settled fun n => climb sub power n left := by
  refine Settled.of_levels (fun i : BindingPower × Expr => fun n => climb sub i.1 n i.2)
    (fun n m i s hs ih => ?_) (power, left)
  rw [climb_succ, climb_succ]
  refine body_congr (.ofRounds hsub n) statement_consumes hs fun c t ht => ?_
  cases c with
  | operators power left =>
      exact ih (power, left) t (ht.ready hs) ((ht.strictlyPrecedes le_rfl).remaining_lt hs)
  | _ => rfl

end

theorem expressionWithin_onward (n : ℕ) (power : BindingPower) :
    (expressionWithin n power).Onward :=
  ((readsExprs_expressionWithin n).recognizes power).onward

/-- An expression runs its parts behind a token that has been read. -/
theorem body_expression_congr (hsub : ∀ power, (sub power).Onward) (hs : s.Ready)
    (h : ∀ t, s.StrictlyPrecedes t → ∀ power, sub power t = sub' power t)
    (power : BindingPower) :
    (body (.expression power)).run (parserAmong (.ofExpression sub)) s =
      (body (.expression power)).run (parserAmong (.ofExpression sub')) s := by
  refine body_congr (.ofExpression hsub) statement_consumes hs fun c t ht => ?_
  have hready := ht.ready hs
  have hlater (hrank : Routine.rank .expression ≤ c.routine.rank) (u : ParserState)
      (hu : t.Precedes u) : ∀ power, sub power u = sub' power u :=
    h u ((ht.strictlyPrecedes hrank).trans_precedes hu)
  cases c with
  | expression power => exact hlater le_rfl t (.refl t) power
  | operators power left => exact climb_congr hsub hready (hlater le_rfl) power _ left
  | arguments => exact arguments_congr hsub hready (hlater (Nat.zero_le _)) _
  | _ => rfl

theorem expressionWithin_settled (power : BindingPower) :
    Settled fun n => expressionWithin n power := by
  refine Settled.of_levels (fun power n => expressionWithin n power)
    (fun n m power s hs ih => ?_) power
  rw [expressionWithin_succ, expressionWithin_succ]
  exact body_expression_congr (expressionWithin_onward n) hs
    (fun t ht power => ih power t (ht.ready hs) (ht.remaining_lt hs)) power

/-- A statement runs its parts behind a token that has been read. -/
theorem body_statement_congr {sub sub' : Parser Stmt} (hsub : ReadsStmts sub) (hs : s.Ready)
    (h : ∀ t, s.StrictlyPrecedes t → sub t = sub' t) :
    (body .statement).run (parserAmong (.ofStatement sub)) s =
      (body .statement).run (parserAmong (.ofStatement sub')) s := by
  refine body_congr (.ofStatement hsub) (ReadsStmts.consumes hsub) hs fun c t ht => ?_
  have hlater (hrank : Routine.rank .statement ≤ c.routine.rank) (u : ParserState)
      (hu : t.Precedes u) : sub u = sub' u :=
    h u ((ht.strictlyPrecedes hrank).trans_precedes hu)
  cases c with
  | statement => exact hlater le_rfl t (.refl t)
  | statements =>
      exact many_congr (ht.ready hs) hsub.tries.recognizes.onward (hlater (Nat.zero_le _))
  | _ => rfl

theorem statementWithin_settled : Settled statementWithin := by
  refine Settled.of_levels (fun (_ : Unit) => statementWithin) (fun n m _ s hs ih => ?_) ()
  rw [statementWithin_succ, statementWithin_succ]
  exact body_statement_congr (readsStmts_statementWithin n) hs
    fun t ht => ih () t (ht.ready hs) (ht.remaining_lt hs)

/-! ## What the parsers of the language do -/

section
variable (hs : s.Ready)
include hs

/-- Run among the levels below, a body does what it does among the parsers of the language. -/
theorem statement_eq_body : statement s = (body .statement).run ParserCall.parser s := by
  rw [statement, bounded_apply, statementWithin_succ]
  change _ = (body .statement).run (parserAmong (.ofStatement statement)) s
  exact body_statement_congr (readsStmts_statementWithin _) hs
    fun t ht => statementWithin_settled.bounded (ht.ready hs) (ht.remaining_lt hs)

theorem expression_eq_body (power : BindingPower) :
    expression power s = (body (.expression power)).run ParserCall.parser s := by
  rw [expression, bounded_apply, expressionWithin_succ]
  change _ = (body (.expression power)).run (parserAmong (.ofExpression expression)) s
  exact body_expression_congr (expressionWithin_onward _) hs
    (fun t ht power => (expressionWithin_settled power).bounded (ht.ready hs) (ht.remaining_lt hs))
    power

theorem operators_eq_body (power : BindingPower) (left : Expr) :
    bounded (fun rounds => climb expression power rounds left) s =
      (body (.operators power left)).run ParserCall.parser s := by
  rw [bounded_apply, climb_succ]
  refine body_congr (.ofRounds expression_onward _) statement_consumes hs fun c t ht => ?_
  cases c with
  | operators power left =>
      exact (climb_settled expression_onward power left).bounded (ht.ready hs)
        ((ht.strictlyPrecedes le_rfl).remaining_lt hs)
  | _ => rfl

theorem arguments_eq_body :
    bounded (Continuation.arguments expression) s =
      (body .arguments).run ParserCall.parser s := by
  rw [bounded_apply, arguments_succ]
  refine body_congr (.ofArguments expression_onward _) statement_consumes hs fun c t ht => ?_
  cases c with
  | arguments =>
      exact (arguments_settled expression_onward).bounded (ht.ready hs)
        ((ht.strictlyPrecedes le_rfl).remaining_lt hs)
  | _ => rfl

end

end Parser

end

namespace ParserCall

variable {s : ParserState}

theorem parser_onward (c : ParserCall) : c.parser.Onward := parserAmong_onward .real c

section
variable {p : Parser α} {item : Steps α} {more : Steps (List α)} (hs : s.Ready)
  (hitem : item.run parser = p) (hmore : more.run parser = p.many)
include hs hitem hmore

theorem many_eq_run (hread : p.Consumes) : p.many s = (item.orNothing more).run parser s := by
  rw [Procedure.run_orNothing, hitem, hmore]
  exact Parser.many_eq (hitem ▸ run_onward parser_onward item) hread hs

theorem many_eq_of_readsOn (h : ∀ s, s.Ready → item.ReadsOn parser s) :
    p.many s = (item.orNothing more).run parser s := by
  refine many_eq_run hs hitem hmore fun u a t hu ht => ?_
  rw [← hitem] at ht
  exact ((h u hu).matched ht).remaining_lt hu

end

/-- A parser of the language does what its procedure says, and the calls of the procedure
are calls of the parsers of the language. -/
theorem parser_eq_body (hs : s.Ready) (c : ParserCall) : c.parser s = c.body.run parser s := by
  cases c with
  | program => simp [body, parserAmong, Parser.program]
  | globals =>
      exact many_eq_of_readsOn hs (Steps.run_global rfl rfl) rfl fun _ =>
        Steps.global_readsOn parser_onward
  | moreParams =>
      exact many_eq_of_readsOn hs Steps.run_nextParam rfl fun _ =>
        Steps.nextParam_readsOn parser_onward
  | moreArguments =>
      exact many_eq_of_readsOn hs (Steps.run_nextArgument rfl) rfl fun _ =>
        Steps.nextArgument_readsOn parser_onward
  | statement => exact Parser.statement_eq_body hs
  | statements => exact many_eq_run hs Steps.run_statement rfl Parser.statement_consumes
  | wholeExpression => simp [body, parserAmong, Parser.wholeExpression, Meanings.real]
  | expression power => exact Parser.expression_eq_body hs power
  | operators power left => exact Parser.operators_eq_body hs power left
  | arguments => exact Parser.arguments_eq_body hs

end ParserCall

end ScriptFront
