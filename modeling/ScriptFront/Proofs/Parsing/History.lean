import Mathlib.Data.List.Basic
import ScriptFront.Proofs.Parsing.Reading

/-!
# The history of a cursor

A cursor does not keep its history. It keeps a place, the marks that are still set, and one
record of the furthest read. What these are is said here by the history alone, that is by the
moves that were made, in any order and with any number of marks missing or left over.

A mark is matched with the move that removes it as an opening parenthesis is with a closing
one: the moves between the two are balanced. So going back leads to where the matching mark
was set. Of all places where a token was read the record has the greatest, and the production
that was the first to read there, however often the cursor went back.
-/
namespace ScriptFront

theorem TokenStream.size_ofList {tokens : List Token} (h : tokens ≠ []) :
    (TokenStream.ofList tokens).size = tokens.length := by
  have hpos := List.length_pos_iff.mpr h
  simp only [TokenStream.size, TokenStream.ofList, List.size_toArray, List.length_dropLast]
  omega

namespace TokenCursor

/-- Each mark is a place inside the stream. -/
def MarksInside (c : TokenCursor) : Prop := ∀ i ∈ c.marks, i < c.stream.size

theorem reset_inside {c : TokenCursor} (hindex : c.index < c.stream.size)
    (hmarks : c.MarksInside) :
    c.reset.stream = c.stream ∧ c.reset.furthest = c.furthest ∧
      c.reset.index < c.stream.size ∧ c.reset.MarksInside := by
  cases hm : c.marks with
  | nil =>
      rw [show c.reset = c by simp only [reset, hm]]
      exact ⟨rfl, rfl, hindex, hmarks⟩
  | cons i marks =>
      rw [show c.reset = { c with index := i, marks } by simp only [reset, hm]]
      exact ⟨rfl, rfl, hmarks i (by simp [hm]), fun j hj => hmarks j (by simp [hm, hj])⟩

/-! ## Moves -/

/-- What can be done to a cursor. -/
inductive Move where
  | mark
  | reset
  | discard
  | next (production : String)
deriving DecidableEq, Repr

def move (c : TokenCursor) : Move → TokenCursor
  | .mark => c.mark
  | .reset => c.reset
  | .discard => c.discard
  | .next production => (c.next production).2

def run (c : TokenCursor) (moves : List Move) : TokenCursor := moves.foldl move c

section
variable (c : TokenCursor) (production : String) (m : Move) (before after : List Move)

@[simp] theorem run_nil : c.run [] = c := rfl

@[simp] theorem run_cons : c.run (m :: after) = (c.move m).run after := rfl

@[simp] theorem run_append : c.run (before ++ after) = (c.run before).run after :=
  List.foldl_append

@[simp] theorem stream_next : (c.next production).2.stream = c.stream :=
  (ParserState.step_eq _).1.trans (ParserState.record_eq c production).1

@[simp] theorem marks_next : (c.next production).2.marks = c.marks :=
  (ParserState.step_eq _).2.1.trans (ParserState.record_eq c production).2.2.1

theorem furthest_next : (c.next production).2.furthest = max c.furthest c.index :=
  (ParserState.step_eq _).2.2.1.trans (ParserState.record_eq c production).2.2.2

theorem furthestProduction_next : (c.next production).2.furthestProduction =
    if c.furthest < c.index then production else c.furthestProduction := by
  simp only [next, step, record]
  split_ifs <;> rfl

theorem index_next_lt (h : c.index < c.stream.size) :
    (c.next production).2.index < c.stream.size := by
  change (c.record production).step.index < c.stream.size
  rw [(ParserState.step_eq _).2.2.2, (ParserState.record_eq c production).1,
    (ParserState.record_eq c production).2.1]
  split_ifs with hnext
  · exact hnext
  · exact h

@[simp] theorem stream_move : (c.move m).stream = c.stream := by
  cases m with
  | mark => rfl
  | discard => rfl
  | next production => exact c.stream_next production
  | reset =>
      simp only [move, reset]
      split <;> rfl

end

/-! ## Staying inside -/

/-- The place, the furthest read and the marks lie in the stream. -/
structure Inside (c : TokenCursor) : Prop where
  index : c.index < c.stream.size
  furthest : c.furthest < c.stream.size
  marks : c.MarksInside

theorem Inside.move {c : TokenCursor} (h : c.Inside) (m : Move) : (c.move m).Inside := by
  cases m with
  | mark => exact ⟨h.index, h.furthest, List.forall_mem_cons.mpr ⟨h.index, h.marks⟩⟩
  | discard => exact ⟨h.index, h.furthest, fun i hi => h.marks i (List.mem_of_mem_tail hi)⟩
  | reset =>
      obtain ⟨hstream, hfurthest, hindex, hmarks⟩ := reset_inside h.index h.marks
      constructor
      · exact hstream ▸ hindex
      · change c.reset.furthest < c.reset.stream.size
        rw [hfurthest, hstream]
        exact h.furthest
      · exact hmarks
  | next production =>
      constructor
      · rw [stream_move]
        exact c.index_next_lt production h.index
      · rw [stream_move]
        exact (c.furthest_next production).trans_lt (max_lt h.furthest h.index)
      · intro i hi
        rw [stream_move]
        exact h.marks i (c.marks_next production ▸ hi)

theorem Inside.run {c : TokenCursor} (h : c.Inside) (moves : List Move) : (c.run moves).Inside := by
  induction moves generalizing c with
  | nil => exact h
  | cons m moves ih => exact ih (h.move m)

theorem stream_run (c : TokenCursor) (moves : List Move) : (c.run moves).stream = c.stream := by
  induction moves generalizing c with
  | nil => rfl
  | cons m moves ih => rw [run_cons, ih, stream_move]

theorem inside_ofStream (stream : TokenStream) (production : String) :
    (ofStream stream production).Inside :=
  ⟨Nat.zero_lt_succ _, Nat.zero_lt_succ _, nofun⟩

/-! ## Matching marks -/

/-- A move that removes the latest mark. -/
def Move.Closes (m : Move) : Prop := m = .reset ∨ m = .discard

/-- Moves that remove each mark they set, and no other. -/
inductive Balanced : List Move → Prop
  | nil : Balanced []
  | next (production : String) {moves : List Move} :
      Balanced moves → Balanced (.next production :: moves)
  | pair {close : Move} {inside moves : List Move} :
      close.Closes → Balanced inside → Balanced moves →
      Balanced (.mark :: inside ++ close :: moves)

theorem marks_of_closes (c : TokenCursor) {m : Move} (h : m.Closes) :
    (c.move m).marks = c.marks.tail := by
  rcases h with rfl | rfl
  · simp only [TokenCursor.move, reset]
    split <;> simp [*]
  · rfl

namespace Balanced

variable {moves moves' : List Move}

theorem append (h : Balanced moves) (h' : Balanced moves') : Balanced (moves ++ moves') := by
  induction h with
  | nil => exact h'
  | next production _ ih => exact .next production ih
  | pair hclose hinside _ _ ih =>
      rw [List.append_assoc]
      exact .pair hclose hinside ih

theorem marks_run (h : Balanced moves) (c : TokenCursor) : (c.run moves).marks = c.marks := by
  induction h generalizing c with
  | nil => rfl
  | next production _ ih => rw [run_cons, ih, TokenCursor.move, marks_next]
  | pair hclose _ _ ihinside ih =>
      rw [run_append, run_cons, run_cons, ih, marks_of_closes _ hclose, ihinside]
      rfl

end Balanced

/-- The latest of the marks that are still set was set after the moves `before`. -/
def MarkedAfter (before moves : List Move) : Prop :=
  ∃ inside, Balanced inside ∧ moves = before ++ .mark :: inside

theorem MarkedAfter.marks_run {before moves : List Move} (h : MarkedAfter before moves)
    (c : TokenCursor) : (c.run moves).marks = (c.run before).index :: (c.run before).marks := by
  obtain ⟨inside, hinside, rfl⟩ := h
  rw [run_append, run_cons, hinside.marks_run]
  rfl

/-- No mark is set any more, or the latest one is found in the moves. -/
def FindsMark (c : TokenCursor) (moves : List Move) : Prop :=
  (c.run moves).marks = [] ∨ ∃ before, MarkedAfter before moves

theorem FindsMark.append {c : TokenCursor} {moves more : List Move} (h : c.FindsMark moves)
    (hmore : Balanced more) : c.FindsMark (moves ++ more) := by
  rcases h with hnone | ⟨before, inside, hinside, rfl⟩
  · left
    rw [run_append, hmore.marks_run, hnone]
  · right
    exact ⟨before, inside ++ more, hinside.append hmore, by simp⟩

/-- A move that removes the latest mark leaves the one that was the latest when that was set,
so the induction is on the number of moves. -/
theorem findsMark {c : TokenCursor} (hc : c.marks = []) (moves : List Move) :
    c.FindsMark moves := by
  rcases List.eq_nil_or_concat' moves with rfl | ⟨front, m, rfl⟩
  · exact .inl hc
  have hfront := findsMark hc front
  have hcloses (hm : m.Closes) : c.FindsMark (front ++ [m]) := by
    rcases hfront with hnone | ⟨before, inside, hinside, rfl⟩
    · left
      rw [run_append, run_cons, run_nil, marks_of_closes _ hm, hnone, List.tail_nil]
    · rw [List.append_assoc]
      exact (findsMark hc before).append (.pair hm hinside .nil)
  cases m with
  | mark => exact .inr ⟨front, [], .nil, rfl⟩
  | reset => exact hcloses (.inl rfl)
  | discard => exact hcloses (.inr rfl)
  | next production => exact hfront.append (.next production .nil)
termination_by moves.length
decreasing_by all_goals simp only [*, List.length_append, List.length_cons]; omega

theorem reset_of_nil {c : TokenCursor} (h : c.marks = []) : c.reset = c := by
  simp only [reset, h]

theorem index_reset_of_cons {c : TokenCursor} {i : ℕ} {marks : List ℕ} (h : c.marks = i :: marks) :
    c.reset.index = i := by
  simp only [reset, h]

/-! ## The furthest read -/

/-- A read: its place, and the production on behalf of which it was made. -/
structure Read where
  index : ℕ
  production : String
deriving DecidableEq, Repr

/-- The read that a move makes, if it is one. -/
def readBy (c : TokenCursor) : Move → List Read
  | .next production => [⟨c.index, production⟩]
  | _ => []

/-- The reads among moves, in order. -/
def reads (c : TokenCursor) : List Move → List Read
  | [] => []
  | m :: moves => c.readBy m ++ (c.move m).reads moves

theorem max?_concat_getD (l : List ℕ) (n : ℕ) :
    (l ++ [n]).max?.getD 0 = max (l.max?.getD 0) n := by
  have hfold (l : List ℕ) : l.max?.getD 0 = l.foldl max 0 := by
    rw [List.foldl_max, Nat.zero_max]
  rw [hfold, hfold, List.foldl_append]
  rfl

/-- The record is right for the reads that were made: it has the greatest place among them,
and the first production that has read there. A cursor that has read nothing, or only the
first token, still has the production that it was made with. -/
structure Records (production : String) (reads : List Read) (c : TokenCursor) : Prop where
  furthest : c.furthest = (reads.map Read.index).max?.getD 0
  first : 0 < c.furthest →
    reads.find? (·.index = c.furthest) = some ⟨c.furthest, c.furthestProduction⟩
  unread : c.furthest = 0 → c.furthestProduction = production

namespace Records

variable {production : String} {reads : List Read} {c d : TokenCursor}

theorem le_furthest (h : Records production reads c) {r : Read} (hr : r ∈ reads) :
    r.index ≤ c.furthest := by
  rw [h.furthest]
  exact List.le_max?_getD_of_mem (List.mem_map_of_mem hr)

theorem congr (h : Records production reads c) (hfurthest : d.furthest = c.furthest)
    (hproduction : d.furthestProduction = c.furthestProduction) : Records production reads d := by
  constructor
  · rw [hfurthest, h.furthest]
  · rw [hfurthest, hproduction]
    exact h.first
  · rw [hfurthest, hproduction]
    exact h.unread

/-- Only a read that is further than all others is put into the record. -/
theorem next (h : Records production reads c) (reader : String) :
    Records production (reads ++ [⟨c.index, reader⟩]) (c.next reader).2 := by
  have hmax : max c.furthest c.index =
      ((reads ++ [(⟨c.index, reader⟩ : Read)]).map Read.index).max?.getD 0 := by
    rw [List.map_append, List.map_singleton, max?_concat_getD, ← h.furthest]
  by_cases hfurther : c.furthest < c.index
  · have hfurthest : (c.next reader).2.furthest = c.index := by
      rw [furthest_next, max_eq_right hfurther.le]
    have hreader : (c.next reader).2.furthestProduction = reader := by
      rw [furthestProduction_next, if_pos hfurther]
    have hearlier : reads.find? (·.index = c.index) = none := by
      rw [List.find?_eq_none]
      intro r hr
      have := h.le_furthest hr
      simp only [decide_eq_true_eq]
      omega
    constructor
    · rw [furthest_next, hmax]
    · intro _
      rw [hfurthest, hreader, List.find?_append, hearlier]
      simp
    · omega
  · have hfurthest : (c.next reader).2.furthest = c.furthest := by
      rw [furthest_next, max_eq_left (not_lt.mp hfurther)]
    have hreader : (c.next reader).2.furthestProduction = c.furthestProduction := by
      rw [furthestProduction_next, if_neg hfurther]
    constructor
    · rw [furthest_next, hmax]
    · intro hpos
      rw [hfurthest] at hpos ⊢
      rw [hreader, List.find?_append, h.first hpos, Option.some_or]
    · rw [hfurthest, hreader]
      exact h.unread

theorem move (h : Records production reads c) (m : Move) :
    Records production (reads ++ c.readBy m) (c.move m) := by
  cases m with
  | next reader => exact h.next reader
  | mark => exact (List.append_nil reads).symm ▸ h.congr rfl rfl
  | discard => exact (List.append_nil reads).symm ▸ h.congr rfl rfl
  | reset =>
      refine (List.append_nil reads).symm ▸ h.congr ?_ ?_
      all_goals
        simp only [TokenCursor.move, reset]
        split <;> rfl

theorem run (h : Records production reads c) (moves : List Move) :
    Records production (reads ++ c.reads moves) (c.run moves) := by
  induction moves generalizing reads c with
  | nil => exact (List.append_nil reads).symm ▸ h
  | cons m moves ih =>
      rw [TokenCursor.reads, ← List.append_assoc]
      exact ih (h.move m)

theorem start (stream : TokenStream) (production : String) :
    Records production [] (ofStream stream production) :=
  ⟨rfl, fun h => absurd h (Nat.lt_irrefl 0), fun _ => rfl⟩

end Records

/-- A cursor in front of some tokens never leaves them, and neither do its marks or its
furthest read. Going back leads to the place where the matching mark was set, and does
nothing if there is none. The furthest read is the greatest place at which a token was asked for,
and its production is the one that was the first to ask there; at the beginning it is the
one that the cursor was made with. -/
theorem history_kept (tokens : List Token) (htokens : tokens ≠ []) (production : String)
    (moves : List Move) :
    let start := ofStream (.ofList tokens) production
    let c := start.run moves
    let reads := start.reads moves
    (c.index < tokens.length ∧ c.furthest < tokens.length ∧ ∀ i ∈ c.marks, i < tokens.length) ∧
      (∀ before, MarkedAfter before moves → c.reset.index = (start.run before).index) ∧
      ((∀ before, ¬MarkedAfter before moves) → c.reset = c) ∧
      c.furthest = (reads.map Read.index).max?.getD 0 ∧
      (0 < c.furthest →
        reads.find? (·.index = c.furthest) = some ⟨c.furthest, c.furthestProduction⟩) ∧
      (c.furthest = 0 → c.furthestProduction = production) := by
  intro start c reads
  have hsize : c.stream.size = tokens.length := by
    rw [stream_run]
    exact TokenStream.size_ofList htokens
  have hinside : c.Inside := (inside_ofStream _ _).run moves
  have hrecords : Records production reads c := (Records.start _ production).run moves
  refine ⟨?_, ?_, ?_, hrecords.furthest, hrecords.first, hrecords.unread⟩
  · rw [← hsize]
    exact ⟨hinside.index, hinside.furthest, hinside.marks⟩
  · intro before h
    exact index_reset_of_cons (h.marks_run start)
  · intro hnone
    apply reset_of_nil
    rcases findsMark (c := start) rfl moves with hnil | ⟨before, h⟩
    · exact hnil
    · exact absurd h (hnone before)

/-- A discard without a mark, a mark inside of one that is still set, and two productions that
ask for the last token. -/
theorem history_kept_of_nested :
    let tokens : List Token := [⟨.identifier, "f", ⟨1, 1⟩⟩, ⟨.openParen, "(", ⟨1, 2⟩⟩,
      Token.endOfInput ⟨1, 3⟩]
    let before : List Move := [.discard, .next "statement"]
    let moves := before ++ .mark ::
      [.next "call", .mark, .next "expression", .reset, .next "assignment"]
    let start := ofStream (.ofList tokens) "program"
    let c := start.run moves
    tokens ≠ [] ∧ MarkedAfter before moves ∧ c.index = 2 ∧ c.reset.index = 1 ∧
      0 < c.furthest ∧ c.furthest = 2 ∧ c.furthestProduction = "expression" := by
  intro tokens before moves start c
  have htokens : tokens ≠ [] := List.cons_ne_nil _ _
  have hmarked : MarkedAfter before moves :=
    ⟨_, .next "call" (.pair (.inl rfl) (.next "expression" .nil) (.next "assignment" .nil)), rfl⟩
  have hplace : c.index = 2 ∧ (start.run before).index = 1 ∧ 0 < c.furthest := by decide +kernel
  have hreads : start.reads moves =
      [⟨0, "statement"⟩, ⟨1, "call"⟩, ⟨2, "expression"⟩, ⟨2, "assignment"⟩] := by decide +kernel
  obtain ⟨-, hreset, -, hmax, hfirst, -⟩ := history_kept tokens htokens "program" moves
  have hfurthest : c.furthest = 2 := by
    change c.furthest = ((start.reads moves).map Read.index).max?.getD 0 at hmax
    rw [hmax, hreads]
    rfl
  have hread := hfirst hplace.2.2
  change (start.reads moves).find? (·.index = c.furthest) = some ⟨c.furthest, _⟩ at hread
  rw [hreads, hfurthest] at hread
  obtain ⟨-, hproduction⟩ := Read.mk.inj (Option.some.inj hread)
  exact ⟨htokens, hmarked, hplace.1, (hreset before hmarked).trans hplace.2.1, hplace.2.2,
    hfurthest, hproduction.symm⟩

end TokenCursor

end ScriptFront
