import ScriptFront.Proofs.Parsing.Lockstep

/-!
# Procedures

A parser is a function, and does not show how it comes to its answer. A procedure does: it
is a tree of steps, each of which looks at the state, reads a token, calls a parser by its
name, handles the outcome of another procedure, or attempts one. Which parsers there are to
be called is left open, and so is what they do; `Answer c` is what a match of `c` yields.

A procedure is run with a meaning for the calls. It then has a list of calls that it makes,
each at the state where it makes it, and nothing but the meaning of these calls has a part
in its outcome. Instead of being given a meaning, calls can be carried out by a procedure
each: such a run ends if it takes finitely many steps.
-/
namespace ScriptFront

variable {Call : Type} {Answer : Call → Type} {α β : Type}

/-- Runs a parser and, if it matches, another one for what follows. -/
def Parser.orNothing (item : Parser α) (more : Parser (List α)) : Parser (List α) := do
  match ← optional item with
  | none => return []
  | some a =>
    let rest ← more
    return a :: rest

/-- A tree of steps. -/
inductive Procedure {Call : Type} (Answer : Call → Type) : Type → Type 1 where
  | look {α : Type} (view : ParserState → Outcome α) : Procedure Answer α
  | advance : Procedure Answer Token
  | call (c : Call) : Procedure Answer (Answer c)
  | handle {α β : Type} (p : Procedure Answer α) (next : Outcome α → Procedure Answer β) :
      Procedure Answer β
  | attempt {α : Type} (production : String) (p : Procedure Answer α) : Procedure Answer α

namespace Procedure

/-! ## Steps in sequence -/

def finish (o : Outcome α) : Procedure Answer α := look fun _ => o

instance : Monad (Procedure Answer) where
  pure a := finish (.matched a)
  bind p f := handle p fun
    | .matched a => f a
    | .noMatch => finish .noMatch
    | .failed d => finish (.failed d)

def noMatch : Procedure Answer α := finish .noMatch

def fail (why : Diagnostic) : Procedure Answer α := finish (.failed why)

def stop : Procedure Answer α := look fun s => .failed s.syntaxError

def currentKind : Procedure Answer TokenKind := look fun s => .matched s.cursor.current.kind

def production : Procedure Answer String := look fun s => .matched s.production

def grammar : Procedure Answer Grammar := look fun s => .matched s.grammar

def accept (kind : TokenKind) : Procedure Answer Token := do
  let token ← advance
  if token.kind = kind then return token else noMatch

def expect (kind : TokenKind) : Procedure Answer Token := do
  let token ← advance
  if token.kind = kind then return token
  else fail (.unexpected token ("expected " ++ kind.name))

def committed (p : Procedure Answer α) : Procedure Answer α :=
  handle p fun
    | .noMatch => stop
    | o => finish o

def optional (p : Procedure Answer α) : Procedure Answer (Option α) :=
  handle p fun
    | .matched a => finish (.matched (some a))
    | .noMatch => finish (.matched none)
    | .failed d => finish (.failed d)

def orElse (p q : Procedure Answer α) : Procedure Answer α :=
  handle p fun
    | .noMatch => q
    | o => finish o

def firstOf : List (Procedure Answer α) → Procedure Answer α
  | [] => noMatch
  | p :: ps => p.orElse (firstOf ps)

def orNothing (item : Procedure Answer α) (more : Procedure Answer (List α)) :
    Procedure Answer (List α) := do
  match ← optional item with
  | none => return []
  | some a =>
    let rest ← more
    return a :: rest

def tentative (production : String) (p : Procedure Answer α) : Procedure Answer α :=
  attempt production <| handle p fun
    | .matched a => finish (.matched a)
    | _ => noMatch

/-! ## Running with a meaning -/

/-- The parser that a procedure describes, if calls mean what `env` says. -/
def run (env : ∀ c, Parser (Answer c)) {α : Type} : Procedure Answer α → Parser α
  | look view => fun s => (view s, s)
  | advance => Parser.advance
  | call c => env c
  | handle p next => fun s => (next (p.run env s).1).run env (p.run env s).2
  | attempt production p => (p.run env).attempt production

/-- The calls that a run makes, each with the state where it makes it. -/
def calls (env : ∀ c, Parser (Answer c)) {α : Type} :
    Procedure Answer α → ParserState → List (Call × ParserState)
  | look _, _ => []
  | advance, _ => []
  | call c, s => [(c, s)]
  | handle p next, s => p.calls env s ++ (next (p.run env s).1).calls env (p.run env s).2
  | attempt production p, s => p.calls env (s.enter production)

/-- The states that a run goes through, those inside of calls left out. -/
def visits (env : ∀ c, Parser (Answer c)) {α : Type} :
    Procedure Answer α → ParserState → List ParserState
  | look _, s => [s]
  | advance, s => [s, s.advanced]
  | call c, s => [s, (env c s).2]
  | handle p next, s => p.visits env s ++ (next (p.run env s).1).visits env (p.run env s).2
  | attempt production p, s =>
      s :: p.visits env (s.enter production) ++ [((p.run env).attempt production s).2]

section
variable (env : ∀ c, Parser (Answer c))

theorem run_handle {p : Procedure Answer α} {next : Outcome α → Procedure Answer β}
    {s t : ParserState} {o : Outcome α} (h : p.run env s = (o, t)) :
    (handle p next).run env s = (next o).run env t := by
  change (next (p.run env s).1).run env (p.run env s).2 = _
  rw [h]

@[simp] theorem run_pure (a : α) : (pure a : Procedure Answer α).run env = pure a := rfl

@[simp] theorem run_bind (p : Procedure Answer α) (f : α → Procedure Answer β) :
    (p >>= f).run env = p.run env >>= fun a => (f a).run env := by
  funext s
  cases hr : p.run env s with
  | mk o t =>
      rw [Parser.bind_apply, hr]
      refine (run_handle env hr).trans ?_
      cases o <;> rfl

@[simp] theorem run_noMatch : (noMatch : Procedure Answer α).run env = Parser.noMatch := rfl

@[simp] theorem run_fail (why : Diagnostic) :
    (fail why : Procedure Answer α).run env = Parser.fail why := rfl

@[simp] theorem run_stop : (stop : Procedure Answer α).run env = Parser.stop := rfl

@[simp] theorem run_currentKind :
    (currentKind : Procedure Answer TokenKind).run env = Parser.currentKind := rfl

@[simp] theorem run_production :
    (production : Procedure Answer String).run env = Parser.production := rfl

@[simp] theorem run_grammar : (grammar : Procedure Answer Grammar).run env = Parser.grammar := rfl

@[simp] theorem run_advance : (advance : Procedure Answer Token).run env = Parser.advance := rfl

@[simp] theorem run_call (c : Call) : (call c : Procedure Answer (Answer c)).run env = env c := rfl

@[simp] theorem run_attempt (production : String) (p : Procedure Answer α) :
    (attempt production p).run env = (p.run env).attempt production := rfl

@[simp] theorem run_ite {P : Prop} [Decidable P] (p q : Procedure Answer α) :
    (if P then p else q).run env = if P then p.run env else q.run env :=
  apply_ite (run env) P p q

@[simp] theorem run_accept (kind : TokenKind) :
    (accept kind : Procedure Answer Token).run env = Parser.accept kind := by
  simp [accept, Parser.accept]

@[simp] theorem run_expect (kind : TokenKind) :
    (expect kind : Procedure Answer Token).run env = Parser.expect kind := by
  simp [expect, Parser.expect]

@[simp] theorem run_committed (p : Procedure Answer α) :
    p.committed.run env = (p.run env).committed := by
  funext s
  cases hr : p.run env s with
  | mk o t =>
      rw [committed, run_handle env hr, Parser.committed, hr]
      cases o <;> rfl

@[simp] theorem run_optional (p : Procedure Answer α) :
    p.optional.run env = (p.run env).optional := by
  funext s
  cases hr : p.run env s with
  | mk o t =>
      rw [optional, run_handle env hr, Parser.optional, hr]
      cases o <;> rfl

@[simp] theorem run_orElse (p q : Procedure Answer α) :
    (p.orElse q).run env = (p.run env).orElse (q.run env) := by
  funext s
  cases hr : p.run env s with
  | mk o t =>
      rw [orElse, run_handle env hr, Parser.orElse, hr]
      cases o <;> rfl

@[simp] theorem run_firstOf (ps : List (Procedure Answer α)) :
    (firstOf ps).run env = Parser.firstOf (ps.map (run env)) := by
  induction ps with
  | nil => rfl
  | cons p ps ih => rw [firstOf, run_orElse, ih, List.map_cons, Parser.firstOf]

@[simp] theorem run_tentative (production : String) (p : Procedure Answer α) :
    (p.tentative production).run env = (p.run env).tentative production := by
  funext s
  cases hr : p.run env (s.enter production) with
  | mk o t =>
      rw [tentative, run_attempt, Parser.attempt, run_handle env hr, Parser.tentative, hr]
      cases o <;> rfl

theorem run_orNothing (item : Procedure Answer α) (more : Procedure Answer (List α)) :
    (item.orNothing more).run env = (item.run env).orNothing (more.run env) := by
  simp only [orNothing, Parser.orNothing, run_bind, run_optional]
  congr 1
  funext a?
  cases a? <;> simp

end

end Procedure

/-! ## Going on -/

/-- The state `t` stands in the stream of `s`, and not in front of `s`. -/
structure ParserState.Precedes (s t : ParserState) : Prop where
  stream : t.cursor.stream = s.cursor.stream
  index : s.cursor.index ≤ t.cursor.index
  ready : s.Ready → t.Ready

structure ParserState.StrictlyPrecedes (s t : ParserState) : Prop extends s.Precedes t where
  index_lt : s.cursor.index < t.cursor.index

/-- A parser that goes on from where it starts, whatever its outcome. -/
def Parser.Onward (p : Parser α) : Prop := ∀ s : ParserState, s.Ready → s.Follows (p s).2

namespace ParserState

variable {s t u : ParserState}

theorem Precedes.refl (s : ParserState) : s.Precedes s := ⟨rfl, le_rfl, id⟩

theorem Precedes.trans (h : s.Precedes t) (k : t.Precedes u) : s.Precedes u :=
  ⟨k.stream.trans h.stream, h.index.trans k.index, k.ready ∘ h.ready⟩

theorem Follows.precedes (h : s.Follows t) : s.Precedes t := ⟨h.stream, h.index, h.ready⟩

theorem precedes_enter (s : ParserState) (production : String) :
    s.Precedes (s.enter production) :=
  ⟨rfl, le_rfl, (·.enter production)⟩

theorem StrictlyPrecedes.trans_precedes (h : s.StrictlyPrecedes t) (k : t.Precedes u) :
    s.StrictlyPrecedes u :=
  ⟨h.toPrecedes.trans k, h.index_lt.trans_le k.index⟩

theorem Precedes.trans_strictly (h : s.Precedes t) (k : t.StrictlyPrecedes u) :
    s.StrictlyPrecedes u :=
  ⟨h.trans k.toPrecedes, h.index.trans_lt k.index_lt⟩

end ParserState

theorem Parser.Consumes.strictlyPrecedes {p : Parser α} (h : p.Consumes) (ho : p.Onward)
    {s t : ParserState} {a : α} (hs : s.Ready) (ht : p s = (.matched a, t)) :
    s.StrictlyPrecedes t := by
  have hfollows := ho s hs
  have hless := h s a t hs ht
  rw [ht] at hfollows
  rw [TokenCursor.remaining, TokenCursor.remaining, hfollows.stream] at hless
  exact ⟨hfollows.precedes, by omega⟩

theorem ParserState.Ready.keep {s : ParserState} (h : s.Ready) (outer : String) :
    (s.keep outer).Ready :=
  ⟨h.inside, h.furthest_inside, h.ends, h.operators, h.forms⟩

theorem ParserState.StrictlyPrecedes.keep {s t : ParserState} (h : s.StrictlyPrecedes t)
    (outer : String) : s.StrictlyPrecedes (t.keep outer) where
  stream := h.stream
  index := h.index
  ready hs := (h.ready hs).keep outer
  index_lt := h.index_lt

theorem Parser.Onward.attempt {p : Parser α} (h : p.Onward) (production : String) :
    (p.attempt production).Onward := by
  intro s hs
  have hrun := h (s.enter production) (hs.enter production)
  rw [Parser.attempt]
  cases hr : p (s.enter production) with
  | mk o t =>
      rw [hr] at hrun
      cases o with
      | matched a => exact hrun.keep
      | noMatch => exact hrun.retreat
      | failed d => exact hrun.keep

namespace Procedure

variable {env env' : ∀ c, Parser (Answer c)} {s t : ParserState}

/-- If all calls go on, so does the procedure. -/
theorem run_onward (henv : ∀ c, (env c).Onward) (p : Procedure Answer α) : (p.run env).Onward := by
  induction p with
  | look view => exact fun s _ => .refl s
  | advance => exact fun s _ => s.follows_advanced
  | call c => exact henv c
  | handle p next ihp ihnext =>
      intro s hs
      have hp := ihp s hs
      exact hp.trans (ihnext _ _ (hp.ready hs))
  | attempt production p ih => exact ih.attempt production

/-- No call is made in front of the state where the run starts. -/
theorem precedes_of_mem_calls (henv : ∀ c, (env c).Onward) (hs : s.Ready) {p : Procedure Answer α}
    {e : Call × ParserState} (he : e ∈ p.calls env s) : s.Precedes e.2 := by
  induction p generalizing s with
  | look | advance => cases he
  | call c =>
      obtain rfl := List.mem_singleton.mp he
      exact .refl s
  | handle p next ihp ihnext =>
      have hp := run_onward henv p s hs
      rcases List.mem_append.mp he with he | he
      · exact ihp hs he
      · exact hp.precedes.trans (ihnext _ (hp.ready hs) he)
  | attempt production p ih =>
      exact (s.precedes_enter production).trans (ih (hs.enter production) he)

/-- Nor does the run ever go back there. -/
theorem precedes_of_mem_visits (henv : ∀ c, (env c).Onward) (hs : s.Ready)
    {p : Procedure Answer α} (ht : t ∈ p.visits env s) : s.Precedes t := by
  induction p generalizing s with
  | look view =>
      obtain rfl := List.mem_singleton.mp ht
      exact .refl t
  | advance =>
      rcases List.mem_cons.mp ht with rfl | ht
      · exact .refl t
      · obtain rfl := List.mem_singleton.mp ht
        exact s.follows_advanced.precedes
  | call c =>
      rcases List.mem_cons.mp ht with rfl | ht
      · exact .refl t
      · obtain rfl := List.mem_singleton.mp ht
        exact (henv c s hs).precedes
  | handle p next ihp ihnext =>
      have hp := run_onward henv p s hs
      rcases List.mem_append.mp ht with ht | ht
      · exact ihp hs ht
      · exact hp.precedes.trans (ihnext _ (hp.ready hs) ht)
  | attempt production p ih =>
      rcases List.mem_append.mp ht with ht | ht
      · rcases List.mem_cons.mp ht with rfl | ht
        · exact .refl t
        · exact (s.precedes_enter production).trans (ih (hs.enter production) ht)
      · obtain rfl := List.mem_singleton.mp ht
        exact ((run_onward henv p).attempt production s hs).precedes

theorem run_congr {p : Procedure Answer α}
    (h : ∀ e ∈ p.calls env s, env e.1 e.2 = env' e.1 e.2) : p.run env s = p.run env' s := by
  induction p generalizing s with
  | look | advance => rfl
  | call c => exact h (c, s) (List.mem_singleton.mpr rfl)
  | handle p next ihp ihnext =>
      have hp := ihp fun e he => h e (List.mem_append_left _ he)
      have hnext := ihnext _ fun e he => h e (List.mem_append_right _ he)
      change (next (p.run env s).1).run env (p.run env s).2 = _
      rw [hnext, hp]
      rfl
  | attempt production p ih =>
      rw [run_attempt, run_attempt, Parser.attempt, Parser.attempt, ih h]

/-! ## Which calls are made -/

/-- All calls that the run from `s` makes are as `Q` says. -/
def CallsOnly (env : ∀ c, Parser (Answer c)) (p : Procedure Answer α) (s : ParserState)
    (Q : Call → ParserState → Prop) : Prop :=
  ∀ e ∈ p.calls env s, Q e.1 e.2

namespace CallsOnly

variable {Q : Call → ParserState → Prop} {p : Procedure Answer α}

theorem look {view : ParserState → Outcome α} :
    (Procedure.look view : Procedure Answer α).CallsOnly env s Q :=
  fun _ he => absurd he List.not_mem_nil

theorem finish {o : Outcome α} : (finish o : Procedure Answer α).CallsOnly env s Q := look

theorem advance : (advance : Procedure Answer Token).CallsOnly env s Q :=
  fun _ he => absurd he List.not_mem_nil

theorem call {c : Call} (h : Q c s) : (Procedure.call c).CallsOnly env s Q := by
  intro e he
  obtain rfl := List.mem_singleton.mp he
  exact h

theorem handle {next : Outcome α → Procedure Answer β} (hp : p.CallsOnly env s Q)
    (hnext : (next (p.run env s).1).CallsOnly env (p.run env s).2 Q) :
    (Procedure.handle p next).CallsOnly env s Q := by
  intro e he
  rcases List.mem_append.mp he with he | he
  · exact hp e he
  · exact hnext e he

theorem bind {f : α → Procedure Answer β} (hp : p.CallsOnly env s Q)
    (hf : ∀ a t, p.run env s = (.matched a, t) → (f a).CallsOnly env t Q) :
    (p >>= f).CallsOnly env s Q := by
  refine hp.handle ?_
  cases hr : p.run env s with
  | mk o t =>
      cases o with
      | matched a => exact hf a t hr
      | noMatch => exact finish
      | failed d => exact finish

theorem look_bind {view : ParserState → Outcome α} {f : α → Procedure Answer β}
    (h : ∀ a, view s = .matched a → (f a).CallsOnly env s Q) :
    (Procedure.look view >>= f).CallsOnly env s Q := by
  refine look.bind fun a t ht => ?_
  obtain ⟨ha, rfl⟩ := Prod.mk.inj ht
  exact h a ha

theorem optional (h : p.CallsOnly env s Q) : p.optional.CallsOnly env s Q := by
  refine h.handle ?_
  split <;> exact finish

theorem orNothing {item : Procedure Answer α} {more : Procedure Answer (List α)}
    (hitem : item.CallsOnly env s Q)
    (hmore : ∀ a t, item.run env s = (.matched a, t) → more.CallsOnly env t Q) :
    (item.orNothing more).CallsOnly env s Q := by
  refine bind hitem.optional fun a? t ht => ?_
  cases a? with
  | none => exact finish
  | some a =>
      have hmatched := Parser.matched_of_optional (run_optional env item ▸ ht)
      exact bind (hmore a t hmatched) fun _ _ _ => finish

end CallsOnly

/-! ## Reading before calling -/

/-- Whatever the run from `s` calls, it calls behind `s`, and it ends behind `s` if it
matches. -/
structure ReadsOn (env : ∀ c, Parser (Answer c)) (p : Procedure Answer α) (s : ParserState) :
    Prop where
  calls : p.CallsOnly env s fun _ t => s.StrictlyPrecedes t
  matched {a : α} {t : ParserState} : p.run env s = (.matched a, t) → s.StrictlyPrecedes t

namespace ReadsOn

variable {p q : Procedure Answer α} {f : α → Procedure Answer β}

/-- What ends without a match at once. -/
theorem finish {o : Outcome α} (h : ∀ a, o ≠ .matched a) :
    (Procedure.finish o : Procedure Answer α).ReadsOn env s :=
  ⟨.finish, fun ht => absurd (Prod.mk.inj ht).1 (h _)⟩

theorem look_bind {view : ParserState → Outcome α}
    (h : ∀ a, view s = .matched a → (f a).ReadsOn env s) :
    (Procedure.look view >>= f).ReadsOn env s where
  calls := .look_bind fun a ha => (h a ha).calls
  matched {b u} hu := by
    rw [run_bind] at hu
    obtain ⟨a, t, ht, hf⟩ := Parser.bind_eq_matched.mp hu
    obtain ⟨ha, rfl⟩ := Prod.mk.inj ht
    exact (h a ha).matched hf

theorem attempt {production : String} (h : p.ReadsOn env (s.enter production)) :
    (Procedure.attempt production p).ReadsOn env s where
  calls e he := (s.precedes_enter production).trans_strictly (h.calls e he)
  matched {a t} ht := by
    rw [run_attempt, Parser.attempt] at ht
    cases hr : p.run env (s.enter production) with
    | mk o u =>
        rw [hr] at ht
        cases o with
        | noMatch => cases ht
        | failed d => cases ht
        | matched b =>
            obtain ⟨-, rfl⟩ := Prod.mk.inj ht
            exact ((s.precedes_enter production).trans_strictly (h.matched hr)).keep s.production

section
variable (henv : ∀ c, (env c).Onward) (hs : s.Ready)
include henv hs

theorem of_strictlyPrecedes (h : s.StrictlyPrecedes t) (p : Procedure Answer α) :
    (p.CallsOnly env t fun _ u => s.StrictlyPrecedes u) ∧ s.StrictlyPrecedes (p.run env t).2 :=
  ⟨fun _ he => h.trans_precedes (precedes_of_mem_calls henv (h.ready hs) he),
    h.trans_precedes (run_onward henv p t (h.ready hs)).precedes⟩

theorem bind (h : p.ReadsOn env s) : (p >>= f).ReadsOn env s where
  calls := h.calls.bind fun a _ ht => (of_strictlyPrecedes henv hs (h.matched ht) (f a)).1
  matched {b u} hu := by
    rw [run_bind] at hu
    obtain ⟨a, t, ht, hf⟩ := Parser.bind_eq_matched.mp hu
    have hbehind := (of_strictlyPrecedes henv hs (h.matched ht) (f a)).2
    rwa [hf] at hbehind

/-- The end mark apart, a token that is read is left behind. -/
theorem advance_bind {f : Token → Procedure Answer β} (hk : s.cursor.current.kind ≠ .endOfInput) :
    (advance >>= f).ReadsOn env s := by
  have hadvanced : s.StrictlyPrecedes s.advanced := by
    refine ⟨s.follows_advanced.precedes, ?_⟩
    rw [(hs.reads_advanced hk).length]
    exact Nat.lt_succ_self _
  refine bind henv hs ⟨.advance, fun ht => ?_⟩
  obtain ⟨-, rfl⟩ := Prod.mk.inj ht
  exact hadvanced

theorem accept {kind : TokenKind} (hk : kind ≠ .endOfInput) :
    (Procedure.accept kind).ReadsOn env s := by
  by_cases h : s.cursor.current.kind = kind
  · exact advance_bind henv hs (h ▸ hk)
  · constructor
    · refine CallsOnly.advance.bind fun token t ht => ?_
      split_ifs <;> exact .finish
    · intro a t ht
      rw [run_accept, Parser.accept_apply, if_neg h] at ht
      cases ht

theorem accept_bind {kind : TokenKind} {f : Token → Procedure Answer β}
    (hk : kind ≠ .endOfInput) : (Procedure.accept kind >>= f).ReadsOn env s :=
  (accept henv hs hk).bind henv hs

theorem orElse (hp : p.ReadsOn env s) (hq : ∀ t, s.Precedes t → q.ReadsOn env t) :
    (p.orElse q).ReadsOn env s := by
  have hrun := run_onward henv p s hs
  cases hr : p.run env s with
  | mk o t =>
      rw [hr] at hrun
      have hnext : (p.orElse q).run env s = _ := run_handle env hr
      constructor
      · refine hp.calls.handle ?_
        rw [hr]
        cases o with
        | matched a => exact .finish
        | failed d => exact .finish
        | noMatch =>
            exact fun e he => hrun.precedes.trans_strictly ((hq t hrun.precedes).calls e he)
      · intro a u hu
        rw [hnext] at hu
        cases o with
        | matched b =>
            obtain ⟨-, rfl⟩ := Prod.mk.inj hu
            exact hp.matched hr
        | failed d => cases hu
        | noMatch => exact hrun.precedes.trans_strictly ((hq t hrun.precedes).matched hu)

theorem firstOf {ps : List (Procedure Answer α)}
    (h : ∀ p ∈ ps, ∀ t, s.Precedes t → p.ReadsOn env t) :
    (Procedure.firstOf ps).ReadsOn env s := by
  induction ps generalizing s with
  | nil => exact finish nofun
  | cons p ps ih =>
      refine orElse henv hs (h p (by simp) s (.refl s)) fun t hst => ?_
      exact ih (hst.ready hs) fun q hq u htu => h q (by simp [hq]) u (hst.trans htu)

end

end ReadsOn

/-! ## Runs that end -/

/-- The run of a procedure from a state takes a number of steps to an outcome and a state.
Calls are carried out by the procedures that `body` gives. -/
inductive Takes (body : ∀ c, Procedure Answer (Answer c)) : {α : Type} →
    Procedure Answer α → ParserState → ℕ → Outcome α → ParserState → Prop
  | look {α : Type} {view : ParserState → Outcome α} {s : ParserState} :
      Takes body (look view) s 1 (view s) s
  | advance {s : ParserState} : Takes body advance s 1 (.matched s.cursor.current) s.advanced
  | call {c : Call} {s t : ParserState} {n : ℕ} {o : Outcome (Answer c)} :
      Takes body (body c) s n o t → Takes body (call c) s (n + 1) o t
  | handle {α β : Type} {p : Procedure Answer α} {next : Outcome α → Procedure Answer β}
      {s t u : ParserState} {n m : ℕ} {o : Outcome α} {o' : Outcome β} :
      Takes body p s n o t → Takes body (next o) t m o' u →
      Takes body (handle p next) s (n + m) o' u
  | keep {α : Type} {production : String} {p : Procedure Answer α} {s t : ParserState} {n : ℕ}
      {o : Outcome α} :
      Takes body p (s.enter production) n o t → o ≠ .noMatch →
      Takes body (attempt production p) s (n + 1) o (t.keep s.production)
  | retreat {α : Type} {production : String} {p : Procedure Answer α} {s t : ParserState}
      {n : ℕ} :
      Takes body p (s.enter production) n .noMatch t →
      Takes body (attempt production p) s (n + 1) .noMatch (t.retreat s.production)

/-- A run ends if the calls that it makes end, and it ends as it does with a meaning if
they end as they mean. -/
theorem takes_of_calls {body : ∀ c, Procedure Answer (Answer c)} {p : Procedure Answer α}
    (h : p.CallsOnly env s fun c t => ∃ n, Takes body (call c) t n (env c t).1 (env c t).2) :
    ∃ n, Takes body p s n (p.run env s).1 (p.run env s).2 := by
  induction p generalizing s with
  | look view => exact ⟨1, .look⟩
  | advance => exact ⟨1, .advance⟩
  | call c => exact h (c, s) (List.mem_singleton.mpr rfl)
  | handle p next ihp ihnext =>
      obtain ⟨n, hp⟩ := ihp fun e he => h e (List.mem_append_left _ he)
      obtain ⟨m, hnext⟩ := ihnext _ fun e he => h e (List.mem_append_right _ he)
      exact ⟨n + m, hp.handle hnext⟩
  | attempt production p ih =>
      obtain ⟨n, hp⟩ := ih (s := s.enter production) h
      refine ⟨n + 1, ?_⟩
      rw [run_attempt, Parser.attempt]
      cases hr : p.run env (s.enter production) with
      | mk o t =>
          rw [hr] at hp
          cases o with
          | noMatch => exact .retreat hp
          | matched a => exact .keep hp (by simp)
          | failed d => exact .keep hp (by simp)

end Procedure

end ScriptFront
