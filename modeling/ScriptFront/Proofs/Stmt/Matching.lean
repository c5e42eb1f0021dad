import ScriptFront.Proofs.Expr.Matching
import ScriptFront.Proofs.Grammar.Stmt
import ScriptFront.Proofs.Stmt.Productions

/-!
# The statement parser reads every statement

The two next tokens decide which form of statement can match. Every other form
declines without a failure, so that the order of the forms hides no statement,
and a form is committed only behind tokens that no other form begins with. A
statement that ends open is read where no `else` follows.
-/
namespace ScriptFront

/-- The form of statement that begins with tokens of the two kinds. -/
def StmtForm.predicted (k l : TokenKind) : Option StmtForm :=
  match k with
  | .whileWord => some .whileLoop
  | .breakWord => some .breakLoop
  | .returnWord => if l = .semicolon then some .emptyReturn else some .valueReturn
  | .ifWord => some .ifThen
  | .openCurly => some .block
  | .semicolon => some .empty
  | .identifier =>
    match l with
    | .openParen => some .call
    | .assignment => some .assign
    | .identifier | .openBracket => some .varDecl
    | _ => none
  | _ => none

/-- Only tokens that can begin a statement predict a form. -/
theorem StmtForm.predicted_of_not_opens {k l : TokenKind} (h : ¬ k.OpensStmt) :
    predicted k l = none := by
  cases k <;> simp_all [predicted, TokenKind.OpensStmt]

theorem TokenKind.OpensStmt.ne_elseWord {k : TokenKind} (h : k.OpensStmt) :
    k ≠ .elseWord := by
  rintro rfl
  simp [OpensStmt] at h

namespace Parser

variable {α : Type} {s : ParserState} {t t' : Token} {w r : List Token}

/-! ## Types, names and lists -/

theorem typeName_matchesAt {type : TypeName} (h : type.SpelledBy w) (hs : s.Ready)
    (hr : s.rest = w ++ t :: r) (hk : t.kind ≠ .openBracket) :
    typeName.MatchesAt s type w := by
  cases h with
  | plain hname =>
      refine accept_bind hs hr hname (by decide) fun u hu hru => ?_
      have hnone : (attempt u.production brackets).DeclinesAt u :=
        .attempt (accept_rejectsAt (hu.enter _) hru hk).bind
      exact hnone.optional.bind_pure
  | @array _ o c hname ho hc =>
      refine accept_bind hs hr hname (by decide) fun u hu hru => ?_
      have hsome : (attempt u.production brackets).MatchesAt u c [o, c] :=
        .attempt (accept_bind (hu.enter _) hru ho (by decide) fun v hv hrv =>
          accept_matchesAt hv hrv hc (by decide))
      exact hsome.optional.bind_pure

theorem listed_matchesAt {D : α → List Token → Prop} {production : String}
    {item : Parser α} {as : List α} (h : Listed D as w) (hs : s.Ready)
    (hr : s.rest = w ++ t :: r) (ht : t.kind = .closeParen)
    (hitem : ∀ {a v u x r}, D a v → ParserState.Ready u → u.rest = v ++ x :: r →
      x.kind = .comma ∨ x.kind = .closeParen → item.MatchesAt u a v)
    (hend : ∀ {u r}, ParserState.Ready u → u.rest = t :: r → item.RejectsAt u) :
    (listed production item).MatchesAt s as w := by
  cases h with
  | nil =>
      have hnone : (separated production item).DeclinesAt s :=
        .attempt (hend (hs.enter _) hr).bind
      exact hnone.optional.bind_pure
  | some h =>
      obtain ⟨a, as, u, v, rfl, rfl, ha, has⟩ := h.exists_repeated
      -- behind an item there is a comma, or the list ends
      have hnext : ∀ {bs : List α} {v : List Token}, Repeated (AfterComma D) bs v →
          ∃ x r', v ++ t :: r = x :: r' ∧ (x.kind = .comma ∨ x.kind = .closeParen) := by
        intro bs v hv
        cases hv with
        | nil => exact ⟨t, r, rfl, .inr ht⟩
        | cons hb _ =>
            obtain ⟨c, x, hc, -, rfl⟩ := hb
            exact ⟨c, _, rfl, .inl hc⟩
      have hmany : ∀ y, ParserState.Ready y → y.rest = v ++ t :: r →
          (many (nextItem production item)).MatchesAt y as v := by
        intro y hy hry
        refine many_matchesAt has ?_ hy hry ?_ ?_
        · rintro b _ ⟨c, x, -, -, rfl⟩
          simp
        · rintro b _ z y ⟨c, x, hc, hb, rfl⟩ ⟨bs, hz⟩ hy hry
          obtain ⟨c', r', hc', hkind⟩ := hnext hz
          rw [hc'] at hry
          exact .attempt (accept_bind (hy.enter _) hry hc (by decide) fun q hq hrq =>
            hitem hb hq hrq hkind)
        · intro y hy hry
          exact .attempt (accept_rejectsAt (hy.enter _) hry (by rw [ht]; decide)).bind
      have hr' : (s.enter production).rest = u ++ (v ++ t :: r) := by simpa using hr
      obtain ⟨x, r', hx, hkind⟩ := hnext has
      have hfirst : item.MatchesAt (s.enter production) a u :=
        hitem ha (hs.enter _) (by rw [hr', hx]) hkind
      have hall : (separated production item).MatchesAt s (a :: as) (u ++ v) :=
        .attempt (hfirst.bind fun y hy =>
          (hmany y (hy.ready (hs.enter _)) (hy.rest_of_append hr')).bind_pure)
      exact hall.optional.bind_pure

theorem argumentList_matchesAt {args : List Expr} (h : Listed Expr.SpelledBy args w)
    (hs : s.Ready) (hr : s.rest = w ++ t :: r) (ht : t.kind = .closeParen) :
    argumentList.MatchesAt s args w := by
  rw [argumentList_eq]
  refine listed_matchesAt h hs hr ht (fun he hu hru hk => ?_) (fun hu hru => ?_)
  · apply expression?_matchesAt he hu hru
    rw [nextLevel]
    rcases hk with hk | hk
    · rw [hk]
      rfl
    · rw [hk]
      rfl
  · exact (expression?_declinesAt hu hru (by rw [ht]; simp [TokenKind.OpensExpr])).rejectsAt

theorem initializer?_matchesAt {init? : Option Expr}
    (h : Possibly (Initializer Expr.SpelledBy) init? w) (hs : s.Ready)
    (hr : s.rest = w ++ t :: r) (ht : t.kind = .semicolon) :
    (optional initializer).MatchesAt s init? w := by
  cases h with
  | none =>
      have hnone : initializer.DeclinesAt s :=
        .attempt (accept_rejectsAt (hs.enter _) hr (by rw [ht]; decide)).bind
      exact hnone.optional
  | some h =>
      obtain ⟨sign, v, hsign, he, rfl⟩ := h
      have hsome : initializer.MatchesAt s _ (sign :: v) :=
        .attempt (accept_bind (hs.enter _) hr hsign (by decide) fun u hu hru =>
          expression?_matchesAt he hu hru (by rw [nextLevel, ht]; rfl))
      exact hsome.optional

/-! ## Forms that decline -/

section
variable {sub : Parser Stmt}

theorem statementOf_declinesAt (f : StmtForm) (hs : s.Ready) (hr : s.rest = t :: t' :: r)
    (hf : StmtForm.predicted t.kind t'.kind ≠ some f) :
    (statementOf sub f).DeclinesAt s := by
  cases f with
  | whileLoop =>
      refine .attempt (accept_rejectsAt (hs.enter _) hr fun hk => ?_).bind
      simp [StmtForm.predicted, hk] at hf
  | call =>
      refine .attempt ?_
      rw [ident_bind]
      refine accept_bind_rejectsAt (hs.enter _) hr (by simp) fun hk u hu hru => ?_
      refine (accept_rejectsAt hu hru fun hk' => ?_).bind
      simp [StmtForm.predicted, hk, hk'] at hf
  | breakLoop =>
      refine .attempt (accept_rejectsAt (hs.enter _) hr fun hk => ?_).bind
      simp [StmtForm.predicted, hk] at hf
  | emptyReturn =>
      refine .attempt (accept_bind_rejectsAt (hs.enter _) hr (by simp) fun hk u hu hru => ?_)
      refine (accept_rejectsAt hu hru fun hk' => ?_).bind
      simp [StmtForm.predicted, hk, hk'] at hf
  | valueReturn =>
      refine .attempt (accept_bind_rejectsAt (hs.enter _) hr (by simp) fun hk u hu hru => ?_)
      -- a return without a value is left to the other form of return
      have hk' : t'.kind = .semicolon := by
        by_contra hk'
        simp [StmtForm.predicted, hk, hk'] at hf
      exact (expression?_declinesAt hu hru
        (by rw [hk']; simp [TokenKind.OpensExpr])).rejectsAt.bind
  | varDecl =>
      refine .attempt ?_
      by_cases hk : t.kind = .identifier
      · have hk' : t'.kind ≠ .identifier ∧ t'.kind ≠ .openBracket := by
          constructor <;> intro hk' <;> simp [StmtForm.predicted, hk, hk'] at hf
        refine (typeName_matchesAt (.plain hk) (hs.enter _) hr hk'.2).bind_rejectsAt
          fun u hu => ?_
        exact (accept_rejectsAt (hu.ready (hs.enter _)) (hu.rest_of_append hr) hk'.1).bind
      · exact (accept_rejectsAt (hs.enter _) hr hk).bind.bind
  | assign =>
      refine .attempt ?_
      rw [ident_bind]
      refine accept_bind_rejectsAt (hs.enter _) hr (by simp) fun hk u hu hru => ?_
      refine (accept_rejectsAt hu hru fun hk' => ?_).bind
      simp [StmtForm.predicted, hk, hk'] at hf
  | ifThen =>
      have hk : s.cursor.current.kind ≠ .ifWord := by
        rw [hs.current_eq hr]
        intro hk
        simp [StmtForm.predicted, hk] at hf
      exact ⟨s, by
        change (if s.cursor.current.kind = .ifWord then _ else noMatch : Parser Stmt) s = _
        rw [if_neg hk]
        rfl, .refl s⟩
  | block =>
      have hk : t.kind ≠ .openCurly := by
        intro hk
        simp [StmtForm.predicted, hk] at hf
      have hblock : (blockOf sub).DeclinesAt s :=
        .attempt (accept_rejectsAt (hs.enter _) hr hk).bind
      exact hblock.bind
  | empty =>
      refine .attempt (accept_rejectsAt (hs.enter _) hr fun hk => ?_).bind
      simp [StmtForm.predicted, hk] at hf

end

/-- The predicted form decides, in whatever order the forms are tried. -/
theorem statementWithin_matchesAt {f : StmtForm} {st : Stmt} {n : ℕ} (hs : s.Ready)
    (hr : s.rest = t :: t' :: r) (hf : StmtForm.predicted t.kind t'.kind = some f)
    (hm : ∀ u, ParserState.Ready u → u.rest = s.rest →
      (statementOf (statementWithin n) f).MatchesAt u st w) :
    (statementWithin (n + 1)).MatchesAt s st w := by
  have hfirst : (firstOf (s.grammar.forms.map (statementOf (statementWithin n)))).MatchesAt
      s st w := by
    refine firstOf_matchesAt ⟨_, List.mem_map_of_mem (hs.forms f), fun u hu => ?_⟩ ?_
    · exact hm u (hu.ready hs) (hu.rest_of_append rfl)
    · intro p hp u hu
      obtain ⟨g, -, rfl⟩ := List.mem_map.mp hp
      have hru : u.rest = t :: t' :: r := hu.rest_of_append hr
      by_cases hg : g = f
      · subst hg
        exact .inl (hm u (hu.ready hs) (hru.trans hr.symm))
      · refine .inr (statementOf_declinesAt g (hu.ready hs) hru ?_)
        rw [hf]
        exact fun h => hg (Option.some.inj h).symm
  exact hfirst

theorem statementWithin_declinesAt {n : ℕ} (hs : s.Ready) (hr : s.rest = t :: r)
    (hk : t.kind ≠ .endOfInput) (ht : ¬ t.kind.OpensStmt) :
    (statementWithin (n + 1)).DeclinesAt s := by
  obtain ⟨t', r, rfl⟩ := hs.exists_next hr hk
  have hfirst : (firstOf (s.grammar.forms.map (statementOf (statementWithin n)))).DeclinesAt
      s := by
    refine firstOf_declinesAt fun p hp u hu => ?_
    obtain ⟨g, -, rfl⟩ := List.mem_map.mp hp
    refine statementOf_declinesAt g (hu.ready hs) (hu.rest_of_append hr) ?_
    simp [StmtForm.predicted_of_not_opens ht]
  exact hfirst

/-! ## Phrases -/

/-- No `else` may follow a statement that ends open. -/
def MayFollow (st : Stmt) (r : List Token) : Prop :=
  st.endsOpen → ∀ t ∈ r.head?, t.kind ≠ .elseWord

theorem MayFollow.of_closed {st : Stmt} (h : st.endsOpen = false) : MayFollow st r := by
  intro hst
  simp [h] at hst

/-- The tokens of the phrase are read wherever they stand in front of what may
follow. Statements in a row are read up to a closing brace. -/
def ReadsStmtPhrase : StmtPhrase → List Token → Prop
  | .stmt st, w => ∀ n s r, w.length ≤ n → ParserState.Ready s → s.rest = w ++ r →
      MayFollow st r → (statementWithin n).MatchesAt s st w
  | .stmts sts, w => ∀ n m s r closing, w.length < n → sts.length ≤ m →
      ParserState.Ready s → s.rest = w ++ closing :: r → closing.kind = .closeCurly →
      ((statementWithin n).manyUpTo m).MatchesAt s sts w

/-- A phrase whose first tokens predict a form is read by that form. -/
theorem readsStmtPhrase_of_form {st : Stmt} {f : StmtForm} {v : List Token}
    (hk : t.kind ≠ .endOfInput)
    (hf : ∀ t' r r', v ++ r = t' :: r' → StmtForm.predicted t.kind t'.kind = some f)
    (hm : ∀ n s r, v.length ≤ n → ParserState.Ready s → s.rest = t :: (v ++ r) →
      MayFollow st r → (statementOf (statementWithin n) f).MatchesAt s st (t :: v)) :
    ReadsStmtPhrase (.stmt st) (t :: v) := by
  intro n s r hn hs hr hnext
  cases n with
  | zero => simp at hn
  | succ n =>
      obtain ⟨t', r', hv⟩ := hs.exists_next (r := v ++ r) hr hk
      refine statementWithin_matchesAt hs (hr.trans (by rw [List.cons_append, hv]))
        (hf t' r r' hv) fun u hu hru => ?_
      exact hm n u r (Nat.le_of_succ_le_succ hn) hu (hru.trans hr) hnext

variable {sub : Parser Stmt} {o c semi : Token} {v u : List Token} {e : Expr} {n : ℕ}

theorem condition_matchesAt {f : Expr → Token → Parser α} {a : α} (h : e.SpelledBy w)
    (hs : s.Ready) (hr : s.rest = w ++ c :: r) (hc : c.kind = .closeParen)
    (hf : ∀ t, ParserState.Ready t → t.rest = r → (f e c).MatchesAt t a v) :
    (expression? >>= fun e => accept .closeParen >>= f e).MatchesAt s a (w ++ c :: v) := by
  refine (expression?_matchesAt h hs hr (by rw [nextLevel, hc]; rfl)).bind fun t ht => ?_
  exact accept_bind (ht.ready hs) (ht.rest_of_append hr) hc (by decide) hf

theorem value_matchesAt {f : Expr → Token → Parser α} {a : α} (h : e.SpelledBy w)
    (hs : s.Ready) (hr : s.rest = w ++ semi :: r) (hsemi : semi.kind = .semicolon)
    (hf : ∀ t, (f e semi).MatchesAt t a []) :
    (expression? >>= fun e => accept .semicolon >>= f e).MatchesAt s a (w ++ [semi]) := by
  refine (expression?_matchesAt h hs hr (by rw [nextLevel, hsemi]; rfl)).bind fun t ht => ?_
  exact accept_bind (ht.ready hs) (ht.rest_of_append hr) hsemi (by decide) fun _ _ _ => hf _

theorem readsStmtPhrase_whileLoop {body : Stmt} (ht : t.kind = .whileWord)
    (ho : o.kind = .openParen) (he : e.SpelledBy w) (hc : c.kind = .closeParen)
    (ih : ReadsStmtPhrase (.stmt body) v) :
    ReadsStmtPhrase (.stmt (.whileLoop e body t)) (t :: o :: (w ++ c :: v)) := by
  refine readsStmtPhrase_of_form (f := .whileLoop) (by rw [ht]; decide)
    (fun _ _ _ _ => by rw [ht]; rfl) fun n s r hn hs hr hnext => .attempt ?_
  simp only [List.length_cons, List.length_append] at hn
  refine accept_bind (hs.enter _) hr ht (by decide) fun x hx hrx => .committed ?_
  refine accept_bind hx hrx ho (by decide) fun y hy hry => ?_
  refine condition_matchesAt he hy (by simpa using hry) hc fun z hz hrz => ?_
  exact (ih n z r (by omega) hz hrz hnext).bind_pure

/-- A call statement is read whatever stands behind it. -/
theorem call_matchesAt {args : List Expr} (ht : t.kind = .identifier) (ho : o.kind = .openParen)
    (hargs : Listed Expr.SpelledBy args w) (hc : c.kind = .closeParen)
    (hsemi : semi.kind = .semicolon) (hs : s.Ready)
    (hr : s.rest = t :: o :: (w ++ c :: semi :: r)) :
    (statementOf sub .call).MatchesAt s (.call ⟨t, none, none⟩ args o)
      (t :: o :: (w ++ [c, semi])) := by
  refine .attempt ?_
  rw [ident_bind]
  refine accept_bind (hs.enter _) hr ht (by decide) fun x hx hrx => ?_
  refine accept_bind hx hrx ho (by decide) fun y hy hry => ?_
  refine (argumentList_matchesAt hargs hy hry hc).bind fun z hz => ?_
  refine accept_bind (hz.ready hy) (hz.rest_of_append hry) hc (by decide) fun z hz hrz => ?_
  exact accept_bind hz hrz hsemi (by decide) fun _ _ _ => .pure

theorem readsStmtPhrase_call {args : List Expr} (ht : t.kind = .identifier)
    (ho : o.kind = .openParen) (hargs : Listed Expr.SpelledBy args w)
    (hc : c.kind = .closeParen) (hsemi : semi.kind = .semicolon) :
    ReadsStmtPhrase (.stmt (.call ⟨t, none, none⟩ args o)) (t :: o :: (w ++ [c, semi])) := by
  refine readsStmtPhrase_of_form (f := .call) (by rw [ht]; decide) ?_
    fun n s r _ hs hr _ => call_matchesAt ht ho hargs hc hsemi hs (by simpa using hr)
  rintro _ _ _ ⟨⟩
  rw [ht, ho]
  rfl

theorem readsStmtPhrase_breakLoop (ht : t.kind = .breakWord) (hsemi : semi.kind = .semicolon) :
    ReadsStmtPhrase (.stmt (.breakLoop t)) [t, semi] := by
  refine readsStmtPhrase_of_form (f := .breakLoop) (by rw [ht]; decide)
    (fun _ _ _ _ => by rw [ht]; rfl) fun n s r _ hs hr _ => .attempt ?_
  refine accept_bind (hs.enter _) hr ht (by decide) fun x hx hrx => ?_
  exact accept_bind hx hrx hsemi (by decide) fun _ _ _ => .pure

theorem readsStmtPhrase_returnValue {value? : Option Expr} (ht : t.kind = .returnWord)
    (hvalue : Possibly Expr.SpelledBy value? w) (hsemi : semi.kind = .semicolon) :
    ReadsStmtPhrase (.stmt (.returnValue value? t)) (t :: (w ++ [semi])) := by
  cases hvalue with
  | none =>
      refine readsStmtPhrase_of_form (f := .emptyReturn) (by rw [ht]; decide) ?_
        fun n s r _ hs hr _ => .attempt ?_
      · rintro _ _ _ ⟨⟩
        rw [ht, hsemi]
        rfl
      refine accept_bind (hs.enter _) hr ht (by decide) fun x hx hrx => ?_
      exact accept_bind hx hrx hsemi (by decide) fun _ _ _ => .pure
  | some he =>
      refine readsStmtPhrase_of_form (f := .valueReturn) (by rw [ht]; decide) ?_
        fun n s r _ hs hr _ => .attempt ?_
      · -- an expression does not begin with a semicolon
        obtain ⟨x, v, rfl, hx⟩ := he.opens
        rintro _ _ _ ⟨⟩
        have hk : x.kind ≠ .semicolon := by
          intro hk
          simp [TokenKind.OpensExpr, hk] at hx
        rw [ht]
        exact if_neg hk
      refine accept_bind (hs.enter _) hr ht (by decide) fun x hx hrx => ?_
      exact value_matchesAt he hx (by simpa using hrx) hsemi fun _ => .pure

theorem readsStmtPhrase_varDecl {type : TypeName} {name : Token} {init? : Option Expr}
    (htype : type.SpelledBy w) (hname : name.kind = .identifier)
    (hinit : Possibly (Initializer Expr.SpelledBy) init? v) (hsemi : semi.kind = .semicolon) :
    ReadsStmtPhrase (.stmt (.varDecl type name init? none)) (w ++ name :: (v ++ [semi])) := by
  obtain ⟨t, x, rfl, ht⟩ := htype.opens
  refine readsStmtPhrase_of_form (f := .varDecl) (by rw [ht]; decide) ?_
    fun n s r _ hs hr _ => .attempt ?_
  · cases htype with
    | plain =>
        rintro _ _ _ ⟨⟩
        rw [ht, hname]
        rfl
    | array _ ho =>
        rintro _ _ _ ⟨⟩
        rw [ht, ho]
        rfl
  have hr' : (s.enter "variable declaration").rest =
      t :: x ++ name :: (v ++ semi :: r) := by simpa using hr
  refine (typeName_matchesAt htype (hs.enter _) hr' (by rw [hname]; decide)).bind
    fun y hy => ?_
  refine accept_bind (hy.ready (hs.enter _)) (hy.rest_of_append hr') hname (by decide)
    fun z hz hrz => ?_
  refine (initializer?_matchesAt hinit hz hrz hsemi).bind fun z' hz' => ?_
  exact accept_bind (hz'.ready hz) (hz'.rest_of_append hrz) hsemi (by decide)
    fun _ _ _ => .pure

theorem readsStmtPhrase_assign (ht : t.kind = .identifier) (ho : o.kind = .assignment)
    (he : e.SpelledBy w) (hsemi : semi.kind = .semicolon) :
    ReadsStmtPhrase (.stmt (.assign ⟨t, none, none⟩ e)) (t :: o :: (w ++ [semi])) := by
  refine readsStmtPhrase_of_form (f := .assign) (by rw [ht]; decide) ?_
    fun n s r _ hs hr _ => .attempt ?_
  · rintro _ _ _ ⟨⟩
    rw [ht, ho]
    rfl
  rw [ident_bind]
  refine accept_bind (hs.enter _) hr ht (by decide) fun x hx hrx => ?_
  refine accept_bind hx hrx ho (by decide) fun y hy hry => ?_
  exact value_matchesAt he hy (by simpa using hry) hsemi fun _ => .pure

theorem elseBranch?_matchesAt_none (hs : s.Ready) (hk : s.cursor.current.kind ≠ .elseWord) :
    (elseBranch? sub).MatchesAt s none [] := by
  refine currentKind_bind hs hs.rest_eq ?_
  rw [if_neg hk]
  exact .pure

theorem elseBranch?_matchesAt {st : Stmt} (hs : s.Ready) (hr : s.rest = t :: r)
    (ht : t.kind = .elseWord)
    (hm : ∀ u, ParserState.Ready u → u.rest = r → sub.MatchesAt u st w) :
    (elseBranch? sub).MatchesAt s (some st) (t :: w) := by
  refine currentKind_bind hs hr ?_
  rw [if_pos ht]
  have hbranch : (otherBranch sub).MatchesAt s st (t :: w) :=
    .attempt (accept_bind (hs.enter _) hr ht (by decide) fun u hu hru =>
      (hm u hu hru).committed)
  exact hbranch.committed.bind_pure

/-- A statement that begins with an `if`, up to what decides about its `else`. -/
theorem ifThen_matchesAt {st thenBranch : Stmt} (other? : Option Stmt)
    (ht : t.kind = .ifWord) (ho : o.kind = .openParen) (he : e.SpelledBy w)
    (hc : c.kind = .closeParen) (hs : s.Ready)
    (hr : s.rest = t :: o :: (w ++ c :: (v ++ (u ++ r))))
    (hst : st = match other? with
      | none => .ifThen e thenBranch t
      | some other => .ifThenElse e thenBranch other t)
    (hthen : ∀ x, ParserState.Ready x → x.rest = v ++ (u ++ r) →
      sub.MatchesAt x thenBranch v)
    (hother : ∀ x, ParserState.Ready x → x.rest = u ++ r →
      (elseBranch? sub).MatchesAt x other? u) :
    (statementOf sub .ifThen).MatchesAt s st (t :: o :: (w ++ c :: (v ++ u))) := by
  refine currentKind_bind hs hr ?_
  rw [if_pos ht]
  refine .attempt (accept_bind (hs.enter _) hr ht (by decide) fun x hx hrx => ?_)
  refine accept_bind hx hrx ho (by decide) fun y hy hry => .committed ?_
  refine condition_matchesAt he hy hry hc fun z hz hrz => ?_
  refine (hthen z hz hrz).bind fun z' hz' => ?_
  have hfinal := (hother z' (hz'.ready hz) (hz'.rest_of_append hrz)).bind (v := []) (b := st)
    (f := fun other? => match other? with
      | none => Pure.pure (.ifThen e thenBranch t)
      | some other => Pure.pure (.ifThenElse e thenBranch other t)) fun q _ => by
        subst hst
        cases other? <;> exact .pure
  rwa [List.append_nil] at hfinal

theorem readsStmtPhrase_ifThen {thenBranch : Stmt} (ht : t.kind = .ifWord)
    (ho : o.kind = .openParen) (he : e.SpelledBy w) (hc : c.kind = .closeParen)
    (ih : ReadsStmtPhrase (.stmt thenBranch) v) :
    ReadsStmtPhrase (.stmt (.ifThen e thenBranch t)) (t :: o :: (w ++ c :: v)) := by
  refine readsStmtPhrase_of_form (f := .ifThen) (by rw [ht]; decide)
    (fun _ _ _ _ => by rw [ht]; rfl) fun n s r hn hs hr hnext => ?_
  simp only [List.length_cons, List.length_append] at hn
  have hr' : s.rest = t :: o :: (w ++ c :: (v ++ ([] ++ r))) := by simpa using hr
  have h := ifThen_matchesAt none (u := []) ht ho he hc
    hs hr' rfl (fun x hx hrx => ih n x r (by omega) hx (by simpa using hrx) fun _ => hnext rfl)
    fun x hx hrx => elseBranch?_matchesAt_none hx (hnext rfl _ (by
      rw [List.nil_append] at hrx
      rw [← hrx, hx.rest_eq]
      simp))
  simpa using h

/-- Between an `if` and its `else` stands a statement that does not end open. -/
theorem readsStmtPhrase_ifThenElse {thenBranch elseBranch : Stmt} {other : Token}
    (ht : t.kind = .ifWord) (ho : o.kind = .openParen) (he : e.SpelledBy w)
    (hc : c.kind = .closeParen) (ih : ReadsStmtPhrase (.stmt thenBranch) v)
    (hclosed : thenBranch.endsOpen = false) (hother : other.kind = .elseWord)
    (ihelse : ReadsStmtPhrase (.stmt elseBranch) u) :
    ReadsStmtPhrase (.stmt (.ifThenElse e thenBranch elseBranch t))
      (t :: o :: (w ++ c :: (v ++ other :: u))) := by
  refine readsStmtPhrase_of_form (f := .ifThen) (by rw [ht]; decide)
    (fun _ _ _ _ => by rw [ht]; rfl) fun n s r hn hs hr hnext => ?_
  simp only [List.length_cons, List.length_append] at hn
  have hr' : s.rest = t :: o :: (w ++ c :: (v ++ (other :: u ++ r))) := by simpa using hr
  refine ifThen_matchesAt (some elseBranch) ht ho he hc hs hr' rfl ?_ ?_
  · intro x hx hrx
    exact ih n x _ (by omega) hx hrx (.of_closed hclosed)
  · intro x hx hrx
    exact elseBranch?_matchesAt hx hrx hother fun y hy hry =>
      ihelse n y r (by omega) hy hry hnext

theorem blockOf_matchesAt {sts : List Stmt} (ho : o.kind = .openCurly)
    (hc : c.kind = .closeCurly) (hs : s.Ready) (hr : s.rest = o :: (w ++ c :: r))
    (hm : ∀ x, ParserState.Ready x → x.rest = w ++ c :: r → (many sub).MatchesAt x sts w) :
    (blockOf sub).MatchesAt s (sts, o) (o :: (w ++ [c])) := by
  refine .attempt (accept_bind (hs.enter _) hr ho (by decide) fun x hx hrx => ?_)
  refine (hm x hx hrx).bind fun y hy => ?_
  exact accept_bind (hy.ready hx) (hy.rest_of_append hrx) hc (by decide) fun _ _ _ => .pure

theorem readsStmtPhrase_block {sts : List Stmt} (ho : o.kind = .openCurly)
    (hw : StmtPhrase.SpelledBy Expr.SpelledBy (.stmts sts) w) (hc : c.kind = .closeCurly)
    (ih : ReadsStmtPhrase (.stmts sts) w) :
    ReadsStmtPhrase (.stmt (.block sts o)) (o :: (w ++ [c])) := by
  refine readsStmtPhrase_of_form (f := .block) (by rw [ho]; decide)
    (fun _ _ _ _ => by rw [ho]; rfl) fun n s r hn hs hr _ => ?_
  simp only [List.length_append, List.length_cons, List.length_nil] at hn
  have hr' : s.rest = o :: (w ++ c :: r) := by simpa using hr
  refine (blockOf_matchesAt ho hc hs hr' fun x hx hrx => ?_).bind_pure
  have hlen := (StmtPhrase.spelledBy_stmts_iff.mp hw).length_le fun _ _ => (·.ne_nil)
  have hrem := ParserState.length_le_remaining hrx
  exact ih n _ x r c (by omega) (by omega) hx hrx hc

theorem readsStmtPhrase_empty (ht : t.kind = .semicolon) :
    ReadsStmtPhrase (.stmt (.empty t)) [t] := by
  refine readsStmtPhrase_of_form (f := .empty) (by rw [ht]; decide)
    (fun _ _ _ _ => by rw [ht]; rfl) fun n s r _ hs hr _ => .attempt ?_
  exact accept_bind (hs.enter _) hr ht (by decide) fun _ _ _ => .pure

theorem readsStmtPhrase_nil : ReadsStmtPhrase (.stmts []) [] := by
  intro n m s r closing hn _ hs hr hc
  obtain ⟨n, rfl⟩ : ∃ k, n = k + 1 := ⟨n - 1, by rw [List.length_nil] at hn; omega⟩
  cases m with
  | zero => exact .pure
  | succ m =>
      have hend : (statementWithin (n + 1)).DeclinesAt s :=
        statementWithin_declinesAt hs hr (by rw [hc]; decide)
          (by rw [hc]; simp [TokenKind.OpensStmt])
      exact hend.optional.bind fun _ _ => .pure

/-- In a block a statement is followed by another or by the closing brace. -/
theorem readsStmtPhrase_cons {st : Stmt} {sts : List Stmt}
    (hv : StmtPhrase.SpelledBy Expr.SpelledBy (.stmts sts) v)
    (ih : ReadsStmtPhrase (.stmt st) w) (ihs : ReadsStmtPhrase (.stmts sts) v) :
    ReadsStmtPhrase (.stmts (st :: sts)) (w ++ v) := by
  intro n m s r closing hn hm hs hr hc
  rw [List.length_append] at hn
  cases m with
  | zero => simp at hm
  | succ m =>
      have hr' : s.rest = w ++ (v ++ closing :: r) := by simpa using hr
      have hnext : MayFollow st (v ++ closing :: r) := by
        intro _
        cases StmtPhrase.spelledBy_stmts_iff.mp hv with
        | nil => simp [hc]
        | cons hst _ =>
            obtain ⟨x, y, rfl, hx⟩ := hst.opens
            simpa using hx.ne_elseWord
      refine (ih n s _ (by omega) hs hr' hnext).optional.bind fun x hx => ?_
      exact (ihs n m x r closing (by omega) (Nat.le_of_succ_le_succ hm) (hx.ready hs)
        (hx.rest_of_append hr') hc).bind_pure

/-- The induction follows the grammar, with one case for each of its rules. -/
theorem readsStmtPhrase {p : StmtPhrase} (h : p.SpelledBy Expr.SpelledBy w) :
    ReadsStmtPhrase p w := by
  induction h with
  | whileLoop ht ho he hc _ ih => exact readsStmtPhrase_whileLoop ht ho he hc ih
  | call ht ho hargs hc hsemi => exact readsStmtPhrase_call ht ho hargs hc hsemi
  | breakLoop ht hsemi => exact readsStmtPhrase_breakLoop ht hsemi
  | returnValue ht hvalue hsemi => exact readsStmtPhrase_returnValue ht hvalue hsemi
  | varDecl htype hname hinit hsemi => exact readsStmtPhrase_varDecl htype hname hinit hsemi
  | assign ht ho he hsemi => exact readsStmtPhrase_assign ht ho he hsemi
  | ifThen ht ho he hc _ ih => exact readsStmtPhrase_ifThen ht ho he hc ih
  | ifThenElse ht ho he hc _ hclosed hother _ ih ihelse =>
      exact readsStmtPhrase_ifThenElse ht ho he hc ih hclosed hother ihelse
  | block ho hw hc ih => exact readsStmtPhrase_block ho hw hc ih
  | empty ht => exact readsStmtPhrase_empty ht
  | nil => exact readsStmtPhrase_nil
  | cons _ hv ih ihs => exact readsStmtPhrase_cons hv ih ihs

/-! ## Statements and blocks -/

theorem statement_matchesAt {st : Stmt} (h : st.SpelledBy Expr.SpelledBy w) (hs : s.Ready)
    (hr : s.rest = w ++ r) (hnext : MayFollow st r) : statement.MatchesAt s st w := by
  have hlen := (ParserState.length_le_remaining hr).trans (Nat.le_succ _)
  obtain ⟨t, ht, hw⟩ := readsStmtPhrase h _ s r hlen hs hr hnext
  exact ⟨t, (bounded_apply _ s).trans ht, hw⟩

theorem statement_declinesAt (hs : s.Ready) (hr : s.rest = t :: r)
    (hk : t.kind ≠ .endOfInput) (ht : ¬ t.kind.OpensStmt) : statement.DeclinesAt s := by
  obtain ⟨u, hu, hsu⟩ := statementWithin_declinesAt hs hr hk ht
  exact ⟨u, (bounded_apply _ s).trans hu, hsu⟩

theorem block_matchesAt {sts : List Stmt} (h : Braced Expr.SpelledBy (sts, o) w)
    (hs : s.Ready) (hr : s.rest = w ++ r) : block.MatchesAt s (sts, o) w := by
  cases h with
  | @intro _ c _ w ho hw hc =>
      refine blockOf_matchesAt ho hc hs (by simpa using hr) fun x hx hrx => ?_
      refine many_matchesAt hw (fun _ _ => (·.ne_nil)) hx hrx ?_ ?_
      · rintro st v u y hst ⟨sts, hu⟩ hy hry
        refine statement_matchesAt hst hy hry fun _ => ?_
        cases hu with
        | nil => simp [hc]
        | cons hst' _ =>
            obtain ⟨x', y', rfl, hx'⟩ := hst'.opens
            simpa using hx'.ne_elseWord
      · intro y hy hry
        exact statement_declinesAt hy hry (by rw [hc]; decide)
          (by rw [hc]; simp [TokenKind.OpensStmt])

end Parser

end ScriptFront
