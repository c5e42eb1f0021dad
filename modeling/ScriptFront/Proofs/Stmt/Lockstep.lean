import ScriptFront.Proofs.Expr.Lockstep
import ScriptFront.Proofs.Stmt.Recognition

/-!
# Statements in lockstep

Every form of statement but one begins with a token that is read. The `if` looks
at its word first and gives way without reading it; some other form reads it
then.
-/
namespace ScriptFront

variable {α : Type} {b b' : ℕ}

/-- What recognizes tokens, and at least one, has read a token when it matches. -/
theorem Parser.Recognizes.consumes {D : α → List Token → Prop} {p : Parser α}
    (h : p.Recognizes D) (hne : ∀ a w, D a w → w ≠ []) : p.Consumes := by
  intro s a t hs ht
  have hrun := h s hs
  rw [ht] at hrun
  obtain ⟨w, hw, ha⟩ := hrun.sound a rfl
  have hlen := hw.length
  have hpos := List.length_pos_iff.mpr (hne a w ha)
  have hin := hs.inside
  change t.cursor.index = s.cursor.index + w.length at hlen
  have hstream : t.cursor.stream = s.cursor.stream := hw.stream
  rw [TokenCursor.remaining, TokenCursor.remaining, hstream, hlen]
  omega

/-! ## Types, names and lists -/

theorem Steady.typeName : Steady b b' Parser.typeName Parser.typeName := by
  have hbrackets : Steady b b' Parser.brackets Parser.brackets :=
    .accept_then (by decide) fun _ =>
      (Steady.accept (by decide)).mono (Nat.le_succ _) (Nat.le_succ _)
  rw [Parser.typeName_eq]
  exact .accept_then (by decide) fun t => .production_bind fun production =>
    hbrackets.attempt.optional.bind fun _ => .pure _

theorem Steady.listed {D : α → List Token → Prop} {production : String} {item : Parser α}
    (h : Steady b b' item item) (hitem : item.Recognizes D) (hD : ∃ a w, D a w) :
    Steady b b' (Parser.listed production item) (Parser.listed production item) := by
  have hread : (Parser.nextItem production item).Consumes :=
    (Parser.nextItem_tries hitem hD).recognizes.consumes (by
      rintro _ _ ⟨_, _, -, -, rfl⟩
      simp)
  have hnext : Steady b b' (Parser.nextItem production item)
      (Parser.nextItem production item) := .attempt (.accept_then (by decide) fun _ => h)
  have hall : Steady b b' (Parser.separated production item)
      (Parser.separated production item) :=
    .attempt (h.bind fun _ => (hnext.many hread hread).bind fun _ => .pure _)
  exact hall.optional.bind fun _ => .pure _

theorem Steady.argumentList : Steady b b' Parser.argumentList Parser.argumentList :=
  Parser.argumentList_eq ▸
    .listed .expression? Parser.expression?_tries.recognizes (Expr.of_inhabited _)

theorem Steady.initializer : Steady b b' Parser.initializer Parser.initializer :=
  .attempt (.accept_then (by decide) fun _ => .expression?)

/-! ## Forms of statement -/

section
variable {sub sub' : Parser Stmt} (hsub : Steady b b' sub sub')

include hsub in
theorem Steady.blockOf (hread : sub.Consumes) (hread' : sub'.Consumes) :
    Steady (b + 1) (b' + 1) (Parser.blockOf sub) (Parser.blockOf sub') :=
  .attempt (.accept_bind (by decide) fun _ => ((hsub.many hread hread').bind fun _ =>
    .accept_then (by decide) fun _ => .pure _).locked)

include hsub in
theorem Steady.elseBranch? :
    Steady b b' (Parser.elseBranch? sub) (Parser.elseBranch? sub') := by
  have hother : Steady b b' (Parser.otherBranch sub) (Parser.otherBranch sub') :=
    .attempt (.accept_then (by decide) fun _ => hsub.committed)
  rw [Parser.elseBranch?_eq, Parser.elseBranch?_eq]
  refine .currentKind_bind fun kind => ?_
  split_ifs
  · exact hother.committed.bind fun _ => .pure _
  · exact .pure none

include hsub in
theorem Steady.ifStatement :
    Steady (b + 1) (b' + 1) (Parser.ifStatement sub) (Parser.ifStatement sub') := by
  refine .attempt (.accept_bind (by decide) fun _ => Steady.locked ?_)
  refine .accept_then (by decide) fun _ => .committed (Steady.expression?.bind fun _ =>
    .accept_then (by decide) fun _ => hsub.bind fun _ => ?_)
  refine (Steady.elseBranch? hsub).bind fun other? => ?_
  cases other? with
  | none => exact .pure _
  | some other => exact .pure _

include hsub in
/-- Every form but the `if` attends to the next token. -/
theorem Steady.statementOf (hread : sub.Consumes) (hread' : sub'.Consumes) (f : StmtForm)
    (hf : f ≠ .ifThen) :
    Steady (b + 1) (b' + 1) (Parser.statementOf sub f) (Parser.statementOf sub' f) := by
  cases f with
  | whileLoop =>
      refine .attempt (.accept_bind (by decide) fun _ => Steady.locked (.committed ?_))
      exact .accept_then (by decide) fun _ => Steady.expression?.bind fun _ =>
        .accept_then (by decide) fun _ => hsub.bind fun _ => .pure _
  | call =>
      refine .attempt ?_
      rw [Parser.ident_bind]
      exact .accept_then (by decide) fun _ => .accept_then (by decide) fun _ =>
        Steady.argumentList.bind fun _ => .accept_then (by decide) fun _ =>
        .accept_then (by decide) fun _ => .pure _
  | breakLoop | emptyReturn =>
      exact .attempt (.accept_then (by decide) fun _ =>
        .accept_then (by decide) fun _ => .pure _)
  | valueReturn =>
      exact .attempt (.accept_then (by decide) fun _ => Steady.expression?.bind fun _ =>
        .accept_then (by decide) fun _ => .pure _)
  | varDecl =>
      exact .attempt (Steady.typeName.bind fun _ => .accept_then (by decide) fun _ =>
        Steady.initializer.optional.bind fun _ => .accept_then (by decide) fun _ => .pure _)
  | assign =>
      refine .attempt ?_
      rw [Parser.ident_bind]
      exact .accept_then (by decide) fun _ => .accept_then (by decide) fun _ =>
        Steady.expression?.bind fun _ => .accept_then (by decide) fun _ => .pure _
  | ifThen => exact absurd rfl hf
  | block => exact (Steady.blockOf hsub hread hread').bind fun _ => .pure _
  | empty => exact .attempt (.accept_then (by decide) fun _ => .pure _)

include hsub in
/-- Up to `k` the `if` is in lockstep too. -/
theorem Locked.statementOf (hread : sub.Consumes) (hread' : sub'.Consumes) (f : StmtForm) :
    Locked 0 (b + 1) (b' + 1) (Parser.statementOf sub f) (Parser.statementOf sub' f) := by
  by_cases hf : f = .ifThen
  · subst hf
    rw [Parser.statementOf_ifThen_eq, Parser.statementOf_ifThen_eq]
    refine .currentKind_bind fun kind => ?_
    split_ifs
    · exact (Steady.ifStatement hsub).locked_zero
    · exact .noMatch
  · exact (Steady.statementOf hsub hread hread' f hf).locked_zero

end

/-- A form that does not match leaves the token to another form. -/
theorem Parser.GivesWay.statementOf {sub : Parser Stmt} (hsub : ReadsStmts sub) {f : StmtForm}
    (hf : f ≠ .ifThen → (Parser.statementOf sub f).Attentive b)
    (hif : (ifStatement sub).Attentive b) : (Parser.statementOf sub f).GivesWay b := by
  have htries := statementOf_tries hsub f
  refine ⟨fun s hs _ => (htries.recognizes s hs).follows, ?_, fun hs ht => htries.restores hs ht⟩
  intro s hs hb hmatch
  by_cases h : f = .ifThen
  · subst h
    rw [statementOf_ifThen_eq] at hmatch ⊢
    change ((if s.cursor.current.kind = .ifWord then ifStatement sub
      else noMatch : Parser Stmt) s).1 ≠ _ at hmatch
    change Attends s ((if s.cursor.current.kind = .ifWord then ifStatement sub
      else noMatch : Parser Stmt) s)
    split_ifs at hmatch ⊢
    · exact hif.attends hs hb
    · exact absurd rfl hmatch
  · exact (hf h).attends hs hb

/-! ## Statements and blocks -/

theorem ReadsStmts.consumes {sub : Parser Stmt} (hsub : ReadsStmts sub) :
    sub.Consumes :=
  hsub.tries.recognizes.consumes fun _ _ => (·.ne_nil)

theorem Steady.statementWithin (n n' : ℕ) :
    Steady n n' (Parser.statementWithin n) (Parser.statementWithin n') := by
  refine Steady.levels (fun n (_ : Unit) => Parser.statementWithin n)
    (fun n _ => Parser.statementWithin n) id id rfl rfl (fun n n' ih _ => ?_) n n' ()
  have hsub : Steady n n' (Parser.statementWithin n) (Parser.statementWithin n') := ih ()
  have hreads := Parser.readsStmts_statementWithin n
  have hreads' := Parser.readsStmts_statementWithin n'
  have hread := ReadsStmts.consumes hreads
  have hread' := ReadsStmts.consumes hreads'
  refine .grammar_bind fun g hforms => .firstOf ?_ ?_ ⟨.whileLoop, hforms _, ?_⟩
  · exact fun f _ => .statementOf hsub hread hread' f
  · intro f _
    have hif := Steady.ifStatement hsub
    constructor
    · exact .statementOf hreads
        (fun hf => (Steady.statementOf hsub hread hread' f hf).attentive) hif.attentive
    · exact .statementOf hreads'
        (fun hf => (Steady.statementOf hsub hread hread' f hf).attentive') hif.attentive'
  · have hwhile := Steady.statementOf hsub hread hread' .whileLoop (by decide)
    exact ⟨hwhile.attentive, hwhile.attentive'⟩

theorem Steady.statement : Steady b b' Parser.statement Parser.statement :=
  .bounded fun n n' => (Steady.statementWithin n n').mono (min_le_left _ _) (min_le_left _ _)

theorem Steady.block : Steady b b' Parser.block Parser.block :=
  have hread := ReadsStmts.consumes Parser.readsStmts_statement
  (Steady.blockOf .statement hread hread).mono (Nat.le_succ _) (Nat.le_succ _)

end ScriptFront
