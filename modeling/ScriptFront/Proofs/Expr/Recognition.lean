import ScriptFront.Proofs.Expr.Powers
import ScriptFront.Proofs.Parsing.Recognition

/-!
# The expression parser reads expressions only

Whatever the expression parser matches is spelled by the tokens it has read, and
no token is read behind which no expression could begin to stand. A matched
expression ends in front of a token that binds no more tightly than the bound;
this is what keeps the strata apart when a chain grows.
-/
namespace ScriptFront

open ExprPhrase (SpelledBy)

theorem Expr.of_inhabited (q : Stratum) : ∃ e w, Expr.Of q e w := ⟨_, _, .sample q⟩

/-- What is required of the parser for expressions inside an expression: it
recognizes the stratum of the bound, and it stops in front of a token that binds
no more tightly. -/
structure ReadsExprs (sub : BindingPower → Parser Expr) : Prop where
  recognizes (power : BindingPower) : (sub power).Recognizes (Expr.Of power.stratum)
  stops {power : BindingPower} {s t : ParserState} {e : Expr} :
    s.Ready → sub power s = (.matched e, t) → t.cursor.current.kind.level ≤ power.level

variable {sub : BindingPower → Parser Expr} {s : ParserState}

theorem ParserState.Ready.level_eq (hs : s.Ready) (k : TokenKind) :
    (s.grammar.operators.power k).level = k.level := by
  rw [hs.operators, TokenKind.level]

theorem Recognition.operand (hsub : ReadsExprs sub) (hs : s.Ready) :
    Recognition (Expr.Of .atom) s (Parser.operand sub s) := by
  have hop : s.grammar.operators.opening? s.cursor.current.kind =
      OperatorTable.standard.opening? s.cursor.current.kind := by rw [hs.operators]
  cases ho : OperatorTable.standard.opening? s.cursor.current.kind with
  | none =>
      rw [Parser.operand_of_none (hop.trans ho)]
      exact advance_fail (Expr.of_inhabited .atom)
  | some o =>
      have hk : s.cursor.current.kind ≠ .endOfInput := by
        intro he
        rw [he] at ho
        exact absurd ho (by simp [OperatorTable.standard, OperatorTable.standardOpening?])
      rw [Parser.operand_of_opening (hop.trans ho)]
      cases o with
      | primary =>
          refine advance_bind hs (Expr.of_inhabited .atom) hk fun _ => ?_
          cases he : Expr.ofToken s.cursor.current with
          | error d => exact fail
          | ok e => exact pure (Expr.spelledBy_of_ofToken he)
      | signed =>
          -- the operand of a sign is an atom, and a plus sign leaves it as it is
          refine advance_bind hs (Expr.of_inhabited .atom) hk fun ht => ?_
          have hsign : ∀ e w, Expr.Of .atom e w →
              Expr.Of .atom (Expr.ofSign s.cursor.current e) (s.cursor.current :: w) := by
            intro e w he
            rcases OperatorTable.signed_kind ho with h | h | h
            · simpa [Expr.ofSign, h] using SpelledBy.plus h he
            · simpa [Expr.ofSign, h] using SpelledBy.neg h he
            · simpa [Expr.ofSign, h] using SpelledBy.not h he
          refine bind (hsub.recognizes .primary _ ht) ?_ ?_
          · intro e w he
            exact ⟨_, [], by simpa using hsign e w he⟩
          · intro e w t _ _ he
            exact pure (by simpa using hsign e w he)
      | grouping =>
          have hopen := OperatorTable.grouping_kind ho
          refine advance_bind hs (Expr.of_inhabited .atom) hk fun ht => ?_
          refine bind (hsub.recognizes .lowest _ ht) ?_ ?_
          · intro e w he
            exact ⟨e, [TokenKind.closeParen.sample], .group hopen he rfl⟩
          · intro e w t _ hw he
            have hgroup : ∀ closing : Token, closing.kind = .closeParen →
                Expr.Of .atom e (s.cursor.current :: (w ++ [closing])) :=
              fun _ hc => .group hopen he hc
            refine expect_bind (hw.ready ht) ⟨e, [TokenKind.closeParen.sample], hgroup _ rfl⟩
              (by decide) fun closing u hc _ => ?_
            exact pure (hgroup closing hc)

/-! ## Arguments -/

theorem Recognition.arguments (hsub : ReadsExprs sub) (hs : s.Ready) (n : ℕ) :
    Recognition (fun es w => SpelledBy (.arguments es) w) s
      (Continuation.arguments sub n s) := by
  induction n generalizing s with
  | zero => exact stop
  | succ n ih =>
      refine bind (hsub.recognizes .lowest s hs) ?_ ?_
      · intro e w he
        exact ⟨[e], [], by simpa using SpelledBy.argument he⟩
      · intro e w t _ hw he
        have ht := hw.ready hs
        -- reading the kind of the next token reads no token
        change Recognition _ t ((if t.cursor.current.kind = .comma then
          Parser.advance >>= fun _ => _ else Pure.pure [e] : Parser (List Expr)) t)
        split_ifs with hcomma
        · refine advance_bind ht ⟨[e], [], by simpa using SpelledBy.argument he⟩
            (by rw [hcomma]; decide) fun hu => ?_
          refine bind (ih hu) ?_ ?_
          · intro es v hes
            exact ⟨e :: es, [], by simpa using SpelledBy.arguments he hcomma hes⟩
          · intro es v u' _ _ hes
            exact pure (by simpa using SpelledBy.arguments he hcomma hes)
        · exact pure (by simpa using SpelledBy.argument he)

/-- The arguments of a call and the parenthesis that closes them. -/
inductive ClosedArguments : List Expr → List Token → Prop
  | nil {closing : Token} : closing.kind = .closeParen → ClosedArguments [] [closing]
  | some {es : List Expr} {w : List Token} {closing : Token} :
      SpelledBy (.arguments es) w → closing.kind = .closeParen →
      ClosedArguments es (w ++ [closing])

theorem ClosedArguments.call {f : Ident} {opening : Token} {es : List Expr} {w v : List Token}
    (h : ClosedArguments es v) (hf : Expr.Of .suffixed (.ident f) w)
    (ho : opening.kind = .openParen) :
    Expr.Of .suffixed (.call f es opening none) (w ++ opening :: v) := by
  cases h with
  | nil hc => exact .callEmpty hf ho hc
  | some hes hc => exact .call hf ho hes hc

theorem Recognition.argumentsAndClose (hsub : ReadsExprs sub) (hs : s.Ready) :
    Recognition ClosedArguments s (Continuation.argumentsAndClose sub s) := by
  change Recognition _ s ((if s.cursor.current.kind = .closeParen then
    Parser.advance >>= fun _ => _ else _ : Parser (List Expr)) s)
  split_ifs with hclose
  · exact advance_bind hs ⟨[], [s.cursor.current], .nil hclose⟩ (by rw [hclose]; decide)
      fun _ => pure (.nil hclose)
  · refine bind (arguments hsub hs _) ?_ ?_
    · intro es w hes
      exact ⟨es, [TokenKind.closeParen.sample], .some hes rfl⟩
    · intro es w t _ hw hes
      exact expect_bind (hw.ready hs) ⟨es, [TokenKind.closeParen.sample], .some hes rfl⟩
        (by decide) fun closing u hc _ => pure (.some hes hc)

/-! ## Continuations

An expression with the tokens `w` and the next token `t` fit together if the
stratum of the expression is not looser than what `t` takes on its left.
-/

/-- The expression on the left fits in front of the next token. -/
def Fits (q : Stratum) (s : ParserState) : Prop := q.rank + s.cursor.current.kind.level ≤ 5

variable {left : Expr} {q : Stratum} {w : List Token}

theorem Recognition.binary (hsub : ReadsExprs sub) (hs : s.Ready) {r : Stratum}
    {op : BinaryOp} (hop : r.operator? s.cursor.current.kind = some op)
    (hleft : Expr.Of r left w) :
    Recognition (fun e v => Expr.Of r e (w ++ v)) s
      (Continuation.parse sub left (OperatorTable.standard.power s.cursor.current.kind)
        .binary s) := by
  obtain ⟨hc, hkind, -, hpower⟩ := OperatorTable.binary_of_operator hop
  have hk : s.cursor.current.kind ≠ .endOfInput := by
    intro he
    rw [he, OperatorTable.continuation_endOfInput] at hc
    exact absurd hc (by simp)
  refine advance_bind hs ⟨left, [], by simpa using hleft⟩ hk fun ht => ?_
  rw [hkind]
  refine bind (hsub.recognizes _ _ ht) ?_ ?_
  · intro right v hright
    rw [hpower] at hright
    exact ⟨_, [], by simpa using SpelledBy.binary hop hleft hright⟩
  · intro right v t _ _ hright
    rw [hpower] at hright
    exact pure (by simpa using SpelledBy.binary hop hleft hright)

theorem Recognition.call (hsub : ReadsExprs sub) (hs : s.Ready)
    (hk : s.cursor.current.kind = .openParen) (hleft : Expr.Of .suffixed left w)
    (power : BindingPower) :
    Recognition (fun e v => Expr.Of .suffixed e (w ++ v)) s
      (Continuation.parse sub left power .call s) := by
  refine advance_bind hs ⟨left, [], by simpa using hleft⟩ (by rw [hk]; decide) fun ht => ?_
  cases left with
  | literal | unary | binary | call => exact fail
  | ident callee =>
      refine bind (argumentsAndClose hsub ht) ?_ ?_
      · intro args v hargs
        exact ⟨_, [], by simpa using hargs.call hleft hk⟩
      · intro args v t _ _ hargs
        exact pure (by simpa using hargs.call hleft hk)

theorem Recognition.subscript (hsub : ReadsExprs sub) (hs : s.Ready)
    (hk : s.cursor.current.kind = .openBracket) (hleft : Expr.Of .suffixed left w)
    (power : BindingPower) :
    Recognition (fun e v => Expr.Of .suffixed e (w ++ v)) s
      (Continuation.parse sub left power .subscript s) := by
  refine advance_bind hs ⟨left, [], by simpa using hleft⟩ (by rw [hk]; decide) fun ht => ?_
  refine bind (hsub.recognizes .lowest _ ht) ?_ ?_
  · intro i v hi
    exact ⟨_, [TokenKind.closeBracket.sample], .subscript hleft hk hi rfl⟩
  · intro i v t _ hv hi
    have hdone : ∀ closing : Token, closing.kind = .closeBracket →
        Expr.Of .suffixed (.binary .subscript left i s.cursor.current none)
          (w ++ s.cursor.current :: (v ++ [closing])) :=
      fun _ hc => .subscript hleft hk hi hc
    exact expect_bind (hv.ready ht) ⟨_, [TokenKind.closeBracket.sample], hdone _ rfl⟩
      (by decide) fun closing u hc _ => pure (hdone closing hc)

/-- A member is read as an atom, and as its first token is a name, it is that
name. -/
theorem Recognition.member (hsub : ReadsExprs sub) (hs : s.Ready)
    (hk : s.cursor.current.kind = .dot) (hleft : Expr.Of .suffixed left w)
    (power : BindingPower) :
    Recognition (fun e v => Expr.Of .suffixed e (w ++ v)) s
      (Continuation.parse sub left power .member s) := by
  have hname : ∀ name : Token, name.kind = .identifier →
      Expr.Of .suffixed (.binary .memberAccess left (.ident ⟨name, none, none⟩)
        s.cursor.current none) (w ++ [s.cursor.current, name]) :=
    fun _ hn => .member hleft hk hn
  refine advance_bind hs ⟨left, [], by simpa using hleft⟩ (by rw [hk]; decide) fun ht => ?_
  change Recognition _ _ ((if s.advanced.cursor.current.kind = .identifier then _ else
    Parser.advance >>= fun _ => _ : Parser Expr) s.advanced)
  split_ifs with hid
  · have hmember : Recognition (fun e v => ∃ name : Token, name.kind = .identifier ∧
        e = .ident ⟨name, none, none⟩ ∧ v = [name]) s.advanced (sub .primary s.advanced) := by
      refine (hsub.recognizes .primary _ ht).restrict ht
        ⟨_, _, TokenKind.identifier.sample, rfl, rfl, rfl⟩ (fun e he => he.ne_nil rfl) ?_
      intro e v he
      obtain ⟨rfl, rfl⟩ := he.atom_of_name hid
      exact ⟨_, hid, rfl, rfl⟩
    refine bind hmember ?_ ?_
    · rintro _ _ ⟨name, hn, rfl, rfl⟩
      exact ⟨_, [], by simpa using hname name hn⟩
    · rintro _ _ t _ _ ⟨name, hn, rfl, rfl⟩
      exact pure (by simpa using hname name hn)
  · exact advance_fail ⟨_, [TokenKind.identifier.sample], hname _ rfl⟩

/-- Whatever continues an expression continues it to an expression of the stratum
that the next token belongs to, and leaves it in front of a token that fits. -/
theorem Recognition.continuation (hsub : ReadsExprs sub) (hs : s.Ready) {c : Continuation}
    (hc : OperatorTable.standard.continuation? s.cursor.current.kind = some c)
    (hleft : Expr.Of q left w) (hfits : Fits q s) :
    ∃ r : Stratum, r.rank + s.cursor.current.kind.level = 5 ∧
      Recognition (fun e v => Expr.Of r e (w ++ v)) s
        (c.parse sub left (OperatorTable.standard.power s.cursor.current.kind) s) ∧
      ∀ e t, c.parse sub left (OperatorTable.standard.power s.cursor.current.kind) s =
        (.matched e, t) → Fits r t := by
  have hsuffix : ∀ t, Fits .suffixed t := by
    intro t
    have := t.cursor.current.kind.level_le
    rw [Fits, Stratum.rank]
    omega
  have hloose : s.cursor.current.kind.level = 4 → Expr.Of .suffixed left w := by
    intro hl
    refine hleft.loosen ?_
    rw [Fits] at hfits
    rw [Stratum.rank]
    omega
  cases c with
  | binary =>
      obtain ⟨r, op, hop, hkind, hr, hpower⟩ := OperatorTable.operator_of_binary hc
      refine ⟨r, hr, binary hsub hs hop (hleft.loosen (by rw [Fits] at hfits; omega)), ?_⟩
      intro e t he
      rw [Parser.parse_binary_of_kind hkind] at he
      obtain ⟨right, u, hright, ⟨⟩⟩ := Parser.bind_eq_matched.mp he
      have := hsub.stops (s.follows_advanced.ready hs) hright
      rw [Fits]
      rw [TokenKind.level] at hr
      omega
  | call =>
      have hk := OperatorTable.openParen_of_call hc
      exact ⟨.suffixed, by rw [hk]; rfl, call hsub hs hk (hloose (by rw [hk]; rfl)) _,
        fun _ t _ => hsuffix t⟩
  | subscript =>
      have hk := OperatorTable.openBracket_of_subscript hc
      exact ⟨.suffixed, by rw [hk]; rfl, subscript hsub hs hk (hloose (by rw [hk]; rfl)) _,
        fun _ t _ => hsuffix t⟩
  | member =>
      have hk := OperatorTable.dot_of_member hc
      exact ⟨.suffixed, by rw [hk]; rfl, member hsub hs hk (hloose (by rw [hk]; rfl)) _,
        fun _ t _ => hsuffix t⟩

/-! ## Chains -/

/-- The induction is on the rounds. The invariant is that the expression so far
is of a stratum within the bound that fits in front of the next token. -/
theorem Recognition.climb (hsub : ReadsExprs sub) (hs : s.Ready) (power : BindingPower)
    (n : ℕ) (hleft : Expr.Of q left w) (hq : q.rank ≤ power.stratum.rank)
    (hfits : Fits q s) :
    Recognition (fun e v => Expr.Of power.stratum e (w ++ v)) s
        (Parser.climb sub power n left s) ∧
      ∀ e t, Parser.climb sub power n left s = (.matched e, t) →
        t.cursor.current.kind.level ≤ power.level := by
  induction n generalizing q left w s with
  | zero => exact ⟨stop, fun e t he => by simp [Parser.climb, Parser.stop] at he⟩
  | succ n ih =>
      have hdone : Expr.Of power.stratum left (w ++ []) := by simpa using hleft.loosen hq
      by_cases hl : s.cursor.current.kind.level ≤ power.level
      · rw [Parser.climb_of_level_le n (by rwa [hs.level_eq])]
        refine ⟨pure hdone, ?_⟩
        rintro _ _ ⟨⟩
        exact hl
      · have hc : (OperatorTable.standard.continuation? s.cursor.current.kind).isSome := by
          cases hn : OperatorTable.standard.continuation? s.cursor.current.kind with
          | none =>
              have := OperatorTable.level_eq_zero hn
              omega
          | some c => rfl
        obtain ⟨c, hc⟩ := Option.isSome_iff_exists.mp hc
        rw [Parser.climb_of_continuation n (by rw [hs.level_eq]; omega)
          (by rw [hs.operators]; exact hc), hs.operators]
        obtain ⟨r, hr, hstep, hnext⟩ := continuation hsub hs hc hleft hfits
        have hrank : r.rank ≤ power.stratum.rank := by
          have := power.rank_stratum
          omega
        constructor
        · refine bind hstep ?_ ?_
          · intro e v he
            exact ⟨e, [], by simpa using SpelledBy.loosen he hrank⟩
          · intro e v t ht hv he
            exact (ih (hv.ready hs) he hrank (hnext e t ht)).1.mono
              fun e' u he' => by simpa using he'
        · intro e t he
          obtain ⟨longer, u, hm, he⟩ := Parser.bind_eq_matched.mp he
          rw [hm] at hstep
          obtain ⟨v, hv, hlonger⟩ := hstep.sound longer rfl
          exact (ih (hv.ready hs) hlonger hrank (hnext _ _ hm)).2 e t he

theorem readsExprs_expressionWithin (n : ℕ) : ReadsExprs (Parser.expressionWithin n) := by
  induction n with
  | zero =>
      constructor
      · exact fun _ _ _ => .stop
      · intro power s e t _ he
        simp [Parser.expressionWithin, Parser.stop] at he
  | succ n ih =>
      have hfits : ∀ t, Fits .atom t := by
        intro t
        have := t.cursor.current.kind.level_le
        rw [Fits, Stratum.rank]
        omega
      constructor
      · intro power _ hs
        refine .bind (.operand ih hs) ?_ ?_
        · intro e w he
          exact ⟨e, [], by simpa using SpelledBy.loosen he (Nat.zero_le _)⟩
        · intro e w t _ hw he
          exact (Recognition.climb ih (hw.ready hs) power _ he (Nat.zero_le _) (hfits t)).1
      · intro power _ t e hs he
        obtain ⟨left, u, hm, he⟩ := Parser.bind_eq_matched.mp he
        have hop := Recognition.operand ih hs
        rw [hm] at hop
        obtain ⟨w, hw, hleft⟩ := hop.sound left rfl
        exact (Recognition.climb ih (hw.ready hs) power _ hleft (Nat.zero_le _)
          (hfits u)).2 e t he

theorem readsExprs_expression : ReadsExprs Parser.expression where
  recognizes power _ hs := (readsExprs_expressionWithin _).recognizes power _ hs
  stops hs he := (readsExprs_expressionWithin _).stops hs he

theorem Parser.expression?_tries : Parser.expression?.Tries Expr.SpelledBy :=
  .tentative (readsExprs_expression.recognizes .lowest)

end ScriptFront
