import ScriptFront.Proofs.Expr.Recognition
import ScriptFront.Proofs.Grammar.Stmt
import ScriptFront.Proofs.Stmt.Productions

/-!
# The statement parser reads statements only

Whatever a production of statements matches is spelled by the tokens it has read,
and no token is read behind which no statement could begin to stand. The forms
may be tried in any order. A statement that ends in an open `if` is never left
in front of an `else`, so an `else` goes to the nearest `if`.
-/
namespace ScriptFront

open TokenKind (kind_sample)

variable {α : Type} {s : ParserState}

/-! ## Types, names and lists -/

theorem Parser.typeName_recognizes : typeName.Recognizes TypeName.SpelledBy := by
  -- the brackets are read for their presence only
  have hbrackets : brackets.Recognizes fun _ w =>
      ∃ o c : Token, o.kind = .openBracket ∧ c.kind = .closeBracket ∧ w = [o, c] := by
    intro s hs
    refine .accept_bind hs ⟨default, _, _, _, kind_sample _, kind_sample _, rfl⟩ (by decide)
      fun o t ho ht => ?_
    exact .accept ht (by decide) fun c hc => ⟨o, c, ho, hc, rfl⟩
  intro s hs
  refine .accept_bind hs ⟨_, _, .plain (kind_sample _)⟩ (by decide) fun t u ht hu => ?_
  refine .production_bind (.bind_pure ((Tries.attempt hbrackets).optional u hu) ?_)
  rintro _ _ (_ | ⟨o, c, ho, hc, rfl⟩)
  · exact .plain ht
  · exact .array ht ho hc

theorem Parser.nextItem_tries {D : α → List Token → Prop} {production : String}
    {item : Parser α} (h : item.Recognizes D) (hD : ∃ a w, D a w) :
    (nextItem production item).Tries (AfterComma D) := by
  obtain ⟨b, x, hb⟩ := hD
  have hafter : ∀ c : Token, c.kind = .comma → ∀ a w, D a w → AfterComma D a (c :: w) :=
    fun c hc _ w ha => ⟨c, w, hc, ha, rfl⟩
  refine .attempt fun s hs => ?_
  refine .accept_bind hs ⟨_, _, hafter _ (kind_sample _) _ _ hb⟩ (by decide) fun c t hc ht => ?_
  exact (h t ht).mono (hafter c hc)

theorem Parser.listed_recognizes {D : α → List Token → Prop} {production : String}
    {item : Parser α} (h : item.Recognizes D) (hD : ∃ a w, D a w) :
    (listed production item).Recognizes (Listed D) := by
  have hseparated : (separated production item).Tries (Separated D) := by
    refine .attempt fun s hs => .bind (h s hs) ?_ ?_
    · intro a w ha
      exact ⟨[a], [], by simpa using Separated.single ha⟩
    · intro a w t _ hw ha
      exact .bind_pure ((nextItem_tries h hD).many t (hw.ready hs))
        fun _ _ hrest => .of_repeated ha hrest
  intro s hs
  refine .bind_pure (hseparated.optional s hs) ?_
  rintro _ _ (_ | ha)
  · exact .nil
  · exact .some ha

theorem Parser.argumentList_recognizes : argumentList.Recognizes (Listed Expr.SpelledBy) :=
  argumentList_eq ▸ listed_recognizes expression?_tries.recognizes (Expr.of_inhabited _)

theorem Parser.initializer_tries : initializer.Tries (Initializer Expr.SpelledBy) := by
  have hsign : ∀ sign : Token, sign.kind = .assignment → ∀ (e : Expr) w, e.SpelledBy w →
      Initializer Expr.SpelledBy e (sign :: w) := fun sign h _ w he => ⟨sign, w, h, he, rfl⟩
  refine .attempt fun s hs => ?_
  refine .accept_bind hs ⟨_, _, hsign _ (kind_sample _) _ _ (.sample _)⟩ (by decide)
    fun sign t h ht => ?_
  exact (expression?_tries.recognizes t ht).mono (hsign sign h)

/-! ## Forms of statement -/

/-- An `else` and its branch. -/
inductive OtherBranch : Stmt → List Token → Prop
  | intro {t : Token} {st : Stmt} {w : List Token} : t.kind = .elseWord →
      Stmt.SpelledBy Expr.SpelledBy st w → OtherBranch st (t :: w)

/-- What is required of the parser for statements inside a statement: it
tries to read statements, and never leaves a statement that ends open in front of
an `else`. -/
structure ReadsStmts (sub : Parser Stmt) : Prop where
  tries : sub.Tries (Stmt.SpelledBy Expr.SpelledBy)
  stops (s : ParserState) : sub.Ensures s fun st t =>
    st.endsOpen → t.cursor.current.kind ≠ .elseWord

theorem Stmt.spelledBy_empty {t : Token} (h : t.kind = .semicolon) :
    Stmt.SpelledBy Expr.SpelledBy (.empty t) [t] := .empty h

theorem Stmt.spelledBy_inhabited : ∃ st w, Stmt.SpelledBy Expr.SpelledBy st w :=
  ⟨_, _, .empty (kind_sample _)⟩

namespace Parser

variable {sub : Parser Stmt}

theorem blockOf_tries (hsub : ReadsStmts sub) :
    (blockOf sub).Tries (Braced Expr.SpelledBy) := by
  refine .attempt fun s hs => ?_
  refine .accept_bind hs
    ⟨_, _, .intro (kind_sample _) .nil (kind_sample _)⟩ (by decide)
    fun o t ho ht => ?_
  refine .bind (hsub.tries.many t ht) ?_ ?_
  · intro sts w hw
    exact ⟨_, _, .intro ho hw (kind_sample _)⟩
  · intro sts w u _ hu hw
    refine .accept_bind (hu.ready ht) ⟨_, _, .intro ho hw (kind_sample _)⟩ (by decide)
      fun c v hc _ => ?_
    exact .pure (.intro ho hw hc)

theorem whileLoop_tries (hsub : ReadsStmts sub) :
    (statementOf sub .whileLoop).Tries (Stmt.SpelledBy Expr.SpelledBy) := by
  have hbody := Stmt.spelledBy_empty (kind_sample .semicolon)
  refine .attempt fun s hs => ?_
  refine .accept_bind hs Stmt.spelledBy_inhabited (by decide)
    fun t u ht hu => .committed ?_
  refine .accept_bind hu ⟨_, _, .whileLoop ht (kind_sample _) (.sample _) (kind_sample _) hbody⟩
    (by decide) fun o v ho hv => ?_
  refine .bind (expression?_tries.recognizes v hv) ?_ ?_
  · intro c w hc
    exact ⟨_, _, .whileLoop ht ho hc (kind_sample _) hbody⟩
  · intro c w v' _ hw hc
    refine .accept_bind (hw.ready hv) ⟨_, _, .whileLoop ht ho hc (kind_sample _) hbody⟩
      (by decide) fun cl x hcl hx => ?_
    exact .bind_pure (hsub.tries.recognizes x hx) fun b y hb => .whileLoop ht ho hc hcl hb

theorem call_tries :
    (statementOf sub .call).Tries (Stmt.SpelledBy Expr.SpelledBy) := by
  refine .attempt fun s hs => ?_
  rw [ident_bind]
  refine .accept_bind hs Stmt.spelledBy_inhabited (by decide) fun t u ht hu => ?_
  refine .accept_bind hu ⟨_, _, .call ht (kind_sample _) .nil (kind_sample _) (kind_sample _)⟩
    (by decide) fun o v ho hv => ?_
  refine .bind (argumentList_recognizes v hv) ?_ ?_
  · intro args w hargs
    exact ⟨_, _, .call ht ho hargs (kind_sample _) (kind_sample _)⟩
  · intro args w v' _ hw hargs
    refine .accept_bind (hw.ready hv) ⟨_, _, .call ht ho hargs (kind_sample _) (kind_sample _)⟩
      (by decide) fun cl x hcl hx => ?_
    refine .accept_bind hx ⟨_, _, .call ht ho hargs hcl (kind_sample _)⟩ (by decide)
      fun semi y hsemi _ => ?_
    exact .pure (.call ht ho hargs hcl hsemi)

theorem breakLoop_tries :
    (statementOf sub .breakLoop).Tries (Stmt.SpelledBy Expr.SpelledBy) := by
  refine .attempt fun s hs => ?_
  refine .accept_bind hs Stmt.spelledBy_inhabited (by decide) fun t u ht hu => ?_
  refine .accept_bind hu ⟨_, _, .breakLoop ht (kind_sample _)⟩ (by decide) fun semi _ hsemi _ => ?_
  exact .pure (.breakLoop ht hsemi)

theorem emptyReturn_tries :
    (statementOf sub .emptyReturn).Tries (Stmt.SpelledBy Expr.SpelledBy) := by
  refine .attempt fun s hs => ?_
  refine .accept_bind hs Stmt.spelledBy_inhabited (by decide) fun t u ht hu => ?_
  refine .accept_bind hu ⟨_, _, .returnValue ht .none (kind_sample _)⟩ (by decide)
    fun semi _ hsemi _ => ?_
  exact .pure (.returnValue ht .none hsemi)

theorem valueReturn_tries :
    (statementOf sub .valueReturn).Tries (Stmt.SpelledBy Expr.SpelledBy) := by
  refine .attempt fun s hs => ?_
  refine .accept_bind hs Stmt.spelledBy_inhabited (by decide) fun t u ht hu => ?_
  refine .bind (expression?_tries.recognizes u hu) ?_ ?_
  · intro e w he
    exact ⟨_, _, .returnValue ht (.some he) (kind_sample _)⟩
  · intro e w v _ hw he
    refine .accept_bind (hw.ready hu) ⟨_, _, .returnValue ht (.some he) (kind_sample _)⟩
      (by decide) fun semi _ hsemi _ => ?_
    exact .pure (.returnValue ht (.some he) hsemi)

theorem varDecl_tries :
    (statementOf sub .varDecl).Tries (Stmt.SpelledBy Expr.SpelledBy) := by
  have hinit : Possibly (Initializer Expr.SpelledBy) none [] := .none
  refine .attempt fun s hs => .bind (typeName_recognizes s hs) ?_ ?_
  · intro type w htype
    exact ⟨_, _, .varDecl htype (kind_sample _) hinit (kind_sample _)⟩
  · intro type w t _ hw htype
    refine .accept_bind (hw.ready hs)
      ⟨_, _, .varDecl htype (kind_sample _) hinit (kind_sample _)⟩ (by decide)
      fun name u hname hu => ?_
    refine .bind (initializer_tries.optional u hu) ?_ ?_
    · intro init? v hv
      exact ⟨_, _, .varDecl htype hname hv (kind_sample _)⟩
    · intro init? v t' _ hv' hv
      refine .accept_bind (hv'.ready hu) ⟨_, _, .varDecl htype hname hv (kind_sample _)⟩
        (by decide) fun semi _ hsemi _ => ?_
      exact .pure (.varDecl htype hname hv hsemi)

theorem assign_tries :
    (statementOf sub .assign).Tries (Stmt.SpelledBy Expr.SpelledBy) := by
  refine .attempt fun s hs => ?_
  rw [ident_bind]
  refine .accept_bind hs Stmt.spelledBy_inhabited (by decide) fun t u ht hu => ?_
  refine .accept_bind hu ⟨_, _, .assign ht (kind_sample _) (.sample _) (kind_sample _)⟩
    (by decide) fun sign v hsign hv => ?_
  refine .bind (expression?_tries.recognizes v hv) ?_ ?_
  · intro e w he
    exact ⟨_, _, .assign ht hsign he (kind_sample _)⟩
  · intro e w v' _ hw he
    refine .accept_bind (hw.ready hv) ⟨_, _, .assign ht hsign he (kind_sample _)⟩
      (by decide) fun semi _ hsemi _ => ?_
    exact .pure (.assign ht hsign he hsemi)

theorem elseBranch?_recognizes (hsub : ReadsStmts sub) (hs : s.Ready) {before : Stmt}
    (hopen : before.endsOpen → s.cursor.current.kind ≠ .elseWord) :
    Recognition (fun other? w => Possibly OtherBranch other? w ∧
      (other?.isSome → before.endsOpen = false)) s (elseBranch? sub s) := by
  refine .currentKind_bind ?_
  split_ifs with hk
  · have hclosed : before.endsOpen = false := by
      rw [Bool.eq_false_iff]
      exact fun h => hopen h hk
    have hbranch : Recognition OtherBranch s (committed (otherBranch sub) s) := by
      refine .committed ((Tries.attempt fun v hv => ?_).recognizes s hs)
      refine .accept_bind hv
        ⟨_, _, .intro (kind_sample _) (Stmt.spelledBy_empty (kind_sample _))⟩ (by decide)
        fun t u ht hu => ?_
      exact .committed ((hsub.tries.recognizes u hu).mono fun _ _ hst => .intro ht hst)
    exact .bind_pure hbranch fun _ _ h => ⟨.some h, fun _ => hclosed⟩
  · exact .pure ⟨.none, by simp⟩

theorem ifThen_tries (hsub : ReadsStmts sub) :
    (statementOf sub .ifThen).Tries (Stmt.SpelledBy Expr.SpelledBy) := by
  have hbody := Stmt.spelledBy_empty (kind_sample .semicolon)
  refine .currentKind_bind fun k => ?_
  split_ifs
  swap
  · exact .noMatch
  refine .attempt fun s hs => ?_
  refine .accept_bind hs Stmt.spelledBy_inhabited (by decide) fun t u ht hu => ?_
  refine .accept_bind hu ⟨_, _, .ifThen ht (kind_sample _) (.sample _) (kind_sample _) hbody⟩
    (by decide) fun o v ho hv => .committed ?_
  refine .bind (expression?_tries.recognizes v hv) ?_ ?_
  · intro c w hc
    exact ⟨_, _, .ifThen ht ho hc (kind_sample _) hbody⟩
  · intro c w v' _ hw hc
    refine .accept_bind (hw.ready hv) ⟨_, _, .ifThen ht ho hc (kind_sample _) hbody⟩
      (by decide) fun cl x hcl hx => ?_
    refine .bind (hsub.tries.recognizes x hx) ?_ ?_
    · intro b y hb
      exact ⟨_, [], by simpa using StmtPhrase.SpelledBy.ifThen ht ho hc hcl hb⟩
    · intro b y x' hm hy hb
      have helse := elseBranch?_recognizes hsub (hy.ready hx) (hsub.stops x b x' hm)
      refine .bind helse ?_ ?_
      · rintro _ _ ⟨_ | ⟨hother, hst⟩, hclosed⟩
        · exact ⟨_, [], by simpa using StmtPhrase.SpelledBy.ifThen ht ho hc hcl hb⟩
        · exact ⟨_, [], by
            simpa using StmtPhrase.SpelledBy.ifThenElse ht ho hc hcl hb (hclosed rfl) hother hst⟩
      · rintro _ _ _ - - ⟨_ | ⟨hother, hst⟩, hclosed⟩
        · exact .pure (by simpa using StmtPhrase.SpelledBy.ifThen ht ho hc hcl hb)
        · exact .pure (by
            simpa using StmtPhrase.SpelledBy.ifThenElse ht ho hc hcl hb (hclosed rfl) hother hst)

theorem block_tries (hsub : ReadsStmts sub) :
    (statementOf sub .block).Tries (Stmt.SpelledBy Expr.SpelledBy) :=
  .bind_pure (blockOf_tries hsub) fun _ _ h => h.stmt

theorem empty_tries :
    (statementOf sub .empty).Tries (Stmt.SpelledBy Expr.SpelledBy) := by
  refine .attempt fun s hs => ?_
  refine .accept_bind hs Stmt.spelledBy_inhabited (by decide) fun t u ht hu => ?_
  exact .pure (.empty ht)

theorem statementOf_tries (hsub : ReadsStmts sub) (f : StmtForm) :
    (statementOf sub f).Tries (Stmt.SpelledBy Expr.SpelledBy) := by
  cases f with
  | whileLoop => exact whileLoop_tries hsub
  | call => exact call_tries
  | breakLoop => exact breakLoop_tries
  | emptyReturn => exact emptyReturn_tries
  | valueReturn => exact valueReturn_tries
  | varDecl => exact varDecl_tries
  | assign => exact assign_tries
  | ifThen => exact ifThen_tries hsub
  | block => exact block_tries hsub
  | empty => exact empty_tries

/-! ## Open statements -/

theorem elseBranch?_stops (hsub : ReadsStmts sub) (s : ParserState) :
    (elseBranch? sub).Ensures s fun other? t =>
      (∀ other ∈ other?, other.endsOpen → t.cursor.current.kind ≠ .elseWord) ∧
        (other? = none → t.cursor.current.kind ≠ .elseWord) := by
  refine .bind fun k t ht => ?_
  cases ht
  split_ifs with hk
  · have hbranch : (committed (otherBranch sub)).Ensures s fun other t =>
        other.endsOpen → t.cursor.current.kind ≠ .elseWord :=
      .committed (.attempt (.bind fun _ u _ => .committed fun other t ht =>
        hsub.stops u other t ht))
    refine .bind fun other t ht => .pure ?_
    simpa using hbranch other t ht
  · exact .pure (by simpa using hk)

theorem statementOf_stops (hsub : ReadsStmts sub) (f : StmtForm) (s : ParserState) :
    (statementOf sub f).Ensures s fun st t =>
      st.endsOpen → t.cursor.current.kind ≠ .elseWord := by
  cases f with
  | whileLoop =>
      refine .attempt (.bind fun _ _ _ => .committed ?_)
      refine .bind fun _ _ _ => .bind fun _ _ _ => .bind fun _ u _ => ?_
      refine .bind fun body t ht => .pure ?_
      exact hsub.stops u body t ht
  | ifThen =>
      refine .bind fun _ _ _ => ?_
      split_ifs
      · refine .attempt (.bind fun _ _ _ => .bind fun _ _ _ => .committed ?_)
        refine .bind fun _ _ _ => .bind fun _ _ _ => .bind fun _ u _ => ?_
        refine .bind fun other? t ht => ?_
        have helse := elseBranch?_stops hsub u other? t ht
        cases other? with
        | none => exact .pure fun _ => helse.2 rfl
        | some other => exact .pure (helse.1 other rfl)
      · exact .noMatch
  | call =>
      refine .attempt (.bind fun _ _ _ => .bind fun _ _ _ => ?_)
      exact .bind fun _ _ _ => .bind fun _ _ _ => .bind fun _ _ _ => .pure nofun
  | varDecl | assign =>
      refine .attempt (.bind fun _ _ _ => .bind fun _ _ _ => ?_)
      exact .bind fun _ _ _ => .bind fun _ _ _ => .pure nofun
  | valueReturn =>
      exact .attempt (.bind fun _ _ _ => .bind fun _ _ _ => .bind fun _ _ _ => .pure nofun)
  | breakLoop | emptyReturn =>
      exact .attempt (.bind fun _ _ _ => .bind fun _ _ _ => .pure nofun)
  | block => exact .bind fun _ _ _ => .pure nofun
  | empty => exact .attempt (.bind fun _ _ _ => .pure nofun)

/-! ## Statements and blocks -/

theorem readsStmts_statementWithin (n : ℕ) : ReadsStmts (statementWithin n) := by
  induction n with
  | zero => exact ⟨.stop, fun _ => .stop⟩
  | succ n ih =>
      constructor
      · refine .grammar_bind fun g => .firstOf fun p hp => ?_
        obtain ⟨f, -, rfl⟩ := List.mem_map.mp hp
        exact statementOf_tries ih f
      · intro s
        refine .bind fun g _ _ => .firstOf fun p hp t => ?_
        obtain ⟨f, -, rfl⟩ := List.mem_map.mp hp
        exact statementOf_stops ih f t

theorem readsStmts_statement : ReadsStmts statement where
  tries := .bounded fun n => (readsStmts_statementWithin n).tries
  stops s := (readsStmts_statementWithin _).stops s

theorem block_recognizes : block.Recognizes (Braced Expr.SpelledBy) :=
  (blockOf_tries readsStmts_statement).recognizes

end Parser

end ScriptFront
