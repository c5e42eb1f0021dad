import ScriptFront.Proofs.Program.Language
import ScriptFront.Proofs.Program.Printing
import ScriptFront.Proofs.Tree.Induction

/-!
# Reading what was printed

The words of a printed tree are legal, and whatever tokens have these words spell a
tree that is the same without tokens. The text of a printed program is therefore read
back as the program.
-/
namespace ScriptFront

variable {α : Type}

/-- The words are legal, and tokens with these words spell what looks the same as `a`
in a view of it. -/
structure Writes (item : α → List Token → Prop) (view : α → α) (a : α) (ws : List Word) :
    Prop where
  legal : ∀ w ∈ ws, w.Legal
  reads : ∀ {tokens : List Token}, tokens.map Token.word = ws →
    ∃ a', item a' tokens ∧ view a' = view a

namespace Word

theorem kind_eq {t : Token} {w : Word} (h : t.word = w) : t.kind = w.kind := h ▸ rfl

theorem text_eq {t : Token} {w : Word} (h : t.word = w) : t.text = w.text := h ▸ rfl

theorem forall_legal_enclosed {opening closing : TokenKind} (ho : opening.spelling?.isSome)
    (hc : closing.spelling?.isSome) {ws : List Word} (hws : ∀ w ∈ ws, w.Legal) :
    ∀ w ∈ enclosed opening closing ws, w.Legal :=
  List.forall_mem_cons.mpr ⟨.ofKind ho,
    List.forall_mem_append.mpr ⟨hws, List.forall_mem_singleton.mpr (.ofKind hc)⟩⟩

theorem exists_of_enclosed {opening closing : TokenKind} {ws : List Word} {tokens : List Token}
    (h : tokens.map Token.word = enclosed opening closing ws) :
    ∃ o v c, tokens = o :: (v ++ [c]) ∧ o.kind = opening ∧ v.map Token.word = ws ∧
      c.kind = closing := by
  obtain ⟨o, _, rfl, ho, h⟩ := List.map_eq_cons_iff.mp h
  obtain ⟨v, _, rfl, hv, h⟩ := List.map_eq_append_iff.mp h
  obtain ⟨c, hc⟩ := List.map_eq_singleton_iff.mp h
  exact ⟨o, v, c, by rw [hc.1], kind_eq ho, hv, kind_eq hc.2⟩

end Word

open Word (kind_eq text_eq)

/-! ## Sequences -/

namespace Writes

variable {item : α → List Token → Prop} {view : α → α} {words : α → List Word}

theorem repeated {as : List α} (h : ∀ a ∈ as, Writes item view a (words a)) :
    Writes (Repeated item) (List.map view) as (as.flatMap words) := by
  induction as with
  | nil => exact ⟨by simp, fun ht => ⟨[], List.map_eq_nil_iff.mp ht ▸ .nil, rfl⟩⟩
  | cons a as ih =>
      obtain ⟨ha, has⟩ := List.forall_mem_cons.mp h
      rw [List.flatMap_cons]
      refine ⟨List.forall_mem_append.mpr ⟨ha.legal, (ih has).legal⟩, fun ht => ?_⟩
      obtain ⟨w, v, rfl, hw, hv⟩ := List.map_eq_append_iff.mp ht
      obtain ⟨b, hb, hview⟩ := ha.reads hw
      obtain ⟨bs, hbs, hviews⟩ := (ih has).reads hv
      exact ⟨b :: bs, .cons hb hbs, by rw [List.map_cons, List.map_cons, hview, hviews]⟩

theorem separated {a : α} {as : List α} (h : ∀ b ∈ a :: as, Writes item view b (words b)) :
    Writes (Separated item) (List.map view) (a :: as) (Word.listed ((a :: as).map words)) := by
  induction as generalizing a with
  | nil =>
      have ha := h a (by simp)
      rw [Word.listed, List.map_singleton, List.intercalate_singleton]
      refine ⟨ha.legal, fun ht => ?_⟩
      obtain ⟨b, hb, hview⟩ := ha.reads ht
      exact ⟨[b], .single hb, by rw [List.map_singleton, List.map_singleton, hview]⟩
  | cons b as ih =>
      obtain ⟨ha, has⟩ := List.forall_mem_cons.mp h
      have hrest := ih has
      rw [Word.listed, List.map_cons, List.map_cons, List.intercalate_cons_cons, ← List.map_cons,
        List.append_assoc, List.singleton_append]
      refine ⟨List.forall_mem_append.mpr ⟨ha.legal,
        List.forall_mem_cons.mpr ⟨.ofKind rfl, hrest.legal⟩⟩, fun ht => ?_⟩
      obtain ⟨w, _, rfl, hw, ht⟩ := List.map_eq_append_iff.mp ht
      obtain ⟨comma, v, rfl, hcomma, hv⟩ := List.map_eq_cons_iff.mp ht
      obtain ⟨a', ha', hview⟩ := ha.reads hw
      obtain ⟨as', has', hviews⟩ := hrest.reads hv
      refine ⟨a' :: as', .cons ha' (kind_eq hcomma) has', ?_⟩
      rw [List.map_cons, hview, hviews, ← List.map_cons]

theorem listed {as : List α} (h : ∀ a ∈ as, Writes item view a (words a)) :
    Writes (Listed item) (List.map view) as (Word.listed (as.map words)) := by
  cases as with
  | nil => exact ⟨by simp [Word.listed], fun ht => ⟨[], List.map_eq_nil_iff.mp ht ▸ .nil, rfl⟩⟩
  | cons a as =>
      refine ⟨(separated h).legal, fun ht => ?_⟩
      obtain ⟨as', has', hviews⟩ := (separated h).reads ht
      exact ⟨as', .some has', hviews⟩

theorem possibly {a? : Option α} (h : ∀ a ∈ a?, Writes item view a (words a)) :
    Writes (Possibly item) (Option.map view) a? ((a?.map words).getD []) := by
  cases a? with
  | none => exact ⟨by simp, fun ht => ⟨none, List.map_eq_nil_iff.mp ht ▸ .none, rfl⟩⟩
  | some a =>
      have ha := h a rfl
      refine ⟨ha.legal, fun ht => ?_⟩
      obtain ⟨b, hb, hview⟩ := ha.reads ht
      exact ⟨some b, .some hb, by rw [Option.map_some, Option.map_some, hview]⟩

end Writes

/-! ## Names and literals -/

theorem Token.Names.legal {t : Token} (h : t.Names) : t.nameWord.Legal := by
  obtain ⟨c, hhead, hc⟩ := h.starts
  obtain ⟨cs, htext⟩ := List.head?_eq_some_iff.mp hhead
  have hcontinues := h.continues
  rw [htext] at hcontinues
  have hlegal : (⟨TokenKind.ofWord t.text, t.text⟩ : Word).Legal :=
    .word hc (List.forall_mem_cons.mp hcontinues).2 htext
  rwa [TokenKind.ofWord_eq_identifier h.not_reserved] at hlegal

theorem Token.bareName_eq {s t : Token} (h : s.word = t.nameWord) : s.bareName = t.bareName := by
  rw [bareName, bareName, text_eq h, nameWord]

theorem Literal.Printable.legal {t : Token} {value : Literal} (h : value.Printable t) :
    (value.word t).Legal := by
  cases h with
  | @int n hn =>
      have htext : (toString (n : ℤ)).toList = _ := Numeral.toList_toString n
      refine .int ?_ ?_
      · rw [htext]
        exact Numeral.isDigits_toDigits n
      · rw [htext, Numeral.decimal_toDigits]
        exact hn
  | float hwhole hfraction htext => exact .float hwhole hfraction htext
  | @bool b => cases b <;> exact .reserved (by decide) (by decide)
  | string => exact .string

theorem Literal.Printable.exists_spelledBy {s t : Token} {value : Literal}
    (h : value.Printable s) (hword : t.word = value.word s) : value.SpelledBy t := by
  have htext := text_eq hword
  cases h with
  | @int n hn =>
      have hdigits : t.text.toList = Nat.toDigits 10 n := by
        rw [htext]
        exact Numeral.toList_toString n
      refine .int (kind_eq hword) ?_
      rw [hdigits, Numeral.integer?_of_isDigits (Numeral.isDigits_toDigits n),
        Numeral.decimal_toDigits]
      rwa [Numeral.decimal_toDigits]
  | float _ _ _ hvalue =>
      refine .float (kind_eq hword) ?_
      rw [htext]
      exact hvalue
  | @bool b =>
      have hb : b = (t.text == "true") := by
        rw [htext]
        change b = (toString b == "true")
        cases b <;> decide
      rw [hb]
      exact .bool (kind_eq hword)
  | @string v =>
      have hv : v = t.text := htext.symm
      rw [hv]
      exact .string (kind_eq hword)

/-! ## Expressions -/

/-- The stratum of an operator between two operands. -/
theorem BinaryOp.exists_operator? {op : BinaryOp} (hsubscript : op ≠ .subscript)
    (hmember : op ≠ .memberAccess) :
    ∃ q : Stratum, q.operator? op.kind = some op := by
  cases op with
  | subscript => exact absurd rfl hsubscript
  | memberAccess => exact absurd rfl hmember
  | add | sub | or | xor => exact ⟨.sum, rfl⟩
  | mul | div | mod | and => exact ⟨.product, rfl⟩
  | less | greater | lessEquals | greaterEquals | equal | unequal => exact ⟨.relation, rfl⟩

theorem BinaryOp.words_eq {op : BinaryOp} (h : op ≠ .subscript) (left right : List Word) :
    op.words left right = left ++ Word.ofKind op.kind :: right := by
  cases op with
  | subscript => exact absurd rfl h
  | _ => rfl

theorem UnaryOp.isSome_spelling? (op : UnaryOp) : op.kind.spelling?.isSome := by
  cases op <;> rfl

theorem BinaryOp.isSome_spelling? (op : BinaryOp) : op.kind.spelling?.isSome := by
  cases op <;> rfl

namespace Expr

/-- The words of an expression, as an expression of a stratum. -/
abbrev WritesOf (q : Stratum) (e : Expr) (ws : List Word) : Prop := Writes (Of q) bare e ws

theorem WritesOf.loosen {q r : Stratum} {e : Expr} {ws : List Word} (h : WritesOf q e ws)
    (hqr : q.rank ≤ r.rank) : WritesOf r e ws := by
  refine ⟨h.legal, fun ht => ?_⟩
  obtain ⟨e', he', hbare⟩ := h.reads ht
  exact ⟨e', he'.loosen hqr, hbare⟩

theorem writes_name {t : Token} (h : t.Names) :
    WritesOf .atom (.ident ⟨t, none, none⟩) [t.nameWord] := by
  refine ⟨List.forall_mem_singleton.mpr h.legal, fun ht => ?_⟩
  obtain ⟨s, rfl, hs⟩ := List.map_eq_singleton_iff.mp ht
  refine ⟨.ident ⟨s, none, none⟩, .name (kind_eq hs), ?_⟩
  simp only [bare, mapTokens, Ident.mapToken, Token.bareName_eq hs]

theorem writes_literal {t : Token} {value : Literal} (h : value.Printable t) :
    WritesOf .atom (.literal value t none) [value.word t] := by
  refine ⟨List.forall_mem_singleton.mpr h.legal, fun ht => ?_⟩
  obtain ⟨s, rfl, hs⟩ := List.map_eq_singleton_iff.mp ht
  exact ⟨.literal value s none, .literal (h.exists_spelledBy hs), rfl⟩

theorem Printable.writes_operand {e : Expr} (h : e.Printable)
    (hw : WritesOf .relation e e.words) : WritesOf .atom e (e.operandWords e.words) := by
  have hparens : WritesOf .atom e (Word.inParens e.words) := by
    refine ⟨Word.forall_legal_enclosed rfl rfl hw.legal, fun ht => ?_⟩
    obtain ⟨o, v, c, rfl, ho, hv, hc⟩ := Word.exists_of_enclosed ht
    obtain ⟨e', he', hbare⟩ := hw.reads hv
    exact ⟨e', .group ho he' hc, hbare⟩
  cases h with
  | literal hvalue => exact writes_literal hvalue
  | ident ht => exact writes_name ht
  | unary | binary | member | call => exact hparens

variable {left right : Expr} {t : Token} {ls rs : List Word}

theorem writes_unary {op : UnaryOp} (h : WritesOf .atom left ls) :
    WritesOf .atom (.unary op left t none) (Word.ofKind op.kind :: ls) := by
  refine ⟨List.forall_mem_cons.mpr ⟨.ofKind op.isSome_spelling?, h.legal⟩, fun ht => ?_⟩
  obtain ⟨sign, v, rfl, hsign, hv⟩ := List.map_eq_cons_iff.mp ht
  obtain ⟨a, ha, hbare⟩ := h.reads hv
  refine ⟨.unary op a sign none, ?_, ?_⟩
  · cases op with
    | neg => exact .neg (kind_eq hsign) ha
    | not => exact .not (kind_eq hsign) ha
  · simp only [bare, mapTokens, Token.bare, hbare]

theorem writes_subscript (hl : WritesOf .atom left ls) (hr : WritesOf .atom right rs) :
    WritesOf .suffixed (.binary .subscript left right t none)
      (BinaryOp.subscript.words ls rs) := by
  have hindex := hr.loosen (r := .relation) (Nat.zero_le _)
  refine ⟨List.forall_mem_append.mpr ⟨hl.legal, Word.forall_legal_enclosed rfl rfl hr.legal⟩,
    fun ht => ?_⟩
  obtain ⟨w, _, rfl, hw, ht⟩ := List.map_eq_append_iff.mp ht
  obtain ⟨o, v, c, rfl, ho, hv, hc⟩ := Word.exists_of_enclosed ht
  obtain ⟨a, ha, hbare⟩ := (hl.loosen (r := .suffixed) (Nat.zero_le _)).reads hw
  obtain ⟨i, hi, hbare'⟩ := hindex.reads hv
  refine ⟨.binary .subscript a i o none, .subscript ha ho hi hc, ?_⟩
  simp only [bare, mapTokens, Token.bare, hbare, hbare']

theorem writes_member {name : Token} (hl : WritesOf .atom left ls) (hname : name.Names) :
    WritesOf .suffixed (.binary .memberAccess left (.ident ⟨name, none, none⟩) t none)
      (BinaryOp.memberAccess.words ls [name.nameWord]) := by
  refine ⟨List.forall_mem_append.mpr ⟨hl.legal, List.forall_mem_cons.mpr
    ⟨.ofKind rfl, List.forall_mem_singleton.mpr hname.legal⟩⟩, fun ht => ?_⟩
  obtain ⟨w, _, rfl, hw, ht⟩ := List.map_eq_append_iff.mp ht
  obtain ⟨dot, _, rfl, hdot, ht⟩ := List.map_eq_cons_iff.mp ht
  obtain ⟨s, rfl, hs⟩ := List.map_eq_singleton_iff.mp ht
  obtain ⟨a, ha, hbare⟩ := (hl.loosen (r := .suffixed) (Nat.zero_le _)).reads hw
  refine ⟨.binary .memberAccess a (.ident ⟨s, none, none⟩) dot none,
    .member ha (kind_eq hdot) (kind_eq hs), ?_⟩
  simp only [bare, mapTokens, Ident.mapToken, Token.bare, Token.bareName_eq hs, hbare]

theorem writes_infix {op : BinaryOp} (hsubscript : op ≠ .subscript) (hmember : op ≠ .memberAccess)
    (hl : WritesOf .atom left ls) (hr : WritesOf .atom right rs) :
    WritesOf .relation (.binary op left right t none) (op.words ls rs) := by
  obtain ⟨q, hq⟩ := BinaryOp.exists_operator? hsubscript hmember
  rw [BinaryOp.words_eq hsubscript]
  refine ⟨List.forall_mem_append.mpr ⟨hl.legal,
    List.forall_mem_cons.mpr ⟨.ofKind op.isSome_spelling?, hr.legal⟩⟩, fun ht => ?_⟩
  obtain ⟨w, _, rfl, hw, ht⟩ := List.map_eq_append_iff.mp ht
  obtain ⟨sign, v, rfl, hsign, hv⟩ := List.map_eq_cons_iff.mp ht
  obtain ⟨a, ha, hbare⟩ := (hl.loosen (r := q) (Nat.zero_le _)).reads hw
  obtain ⟨b, hb, hbare'⟩ := (hr.loosen (r := q.tighter) (Nat.zero_le _)).reads hv
  have hkind : sign.kind = op.kind := kind_eq hsign
  rw [← hkind] at hq
  refine ⟨.binary op a b sign none, (ExprPhrase.SpelledBy.binary hq ha hb).loosen ?_, ?_⟩
  · cases q <;> decide
  · simp only [bare, mapTokens, Token.bare, hbare, hbare']

theorem spelledBy_arguments {args : List Expr} {v : List Token}
    (h : Separated Expr.SpelledBy args v) : ExprPhrase.SpelledBy (.arguments args) v := by
  induction h with
  | single he => exact .argument he
  | cons he hcomma _ ih => exact .arguments he hcomma ih

/-- What spells a list of arguments spells a call of a name with them. -/
theorem exists_call {args : List Expr} {v : List Token} (h : Listed Expr.SpelledBy args v)
    {callee o c : Token} (hcallee : callee.kind = .identifier) (ho : o.kind = .openParen)
    (hc : c.kind = .closeParen) :
    Of .suffixed (.call ⟨callee, none, none⟩ args o none) (callee :: o :: (v ++ [c])) := by
  have hname : Of .suffixed (.ident ⟨callee, none, none⟩) [callee] :=
    (ExprPhrase.SpelledBy.name hcallee).loosen (Nat.zero_le _)
  cases h with
  | nil => exact .callEmpty hname ho hc
  | some hargs => exact .call hname ho (spelledBy_arguments hargs) hc

theorem writes_call {callee openParen : Token} {args : List Expr} (hcallee : callee.Names)
    (h : ∀ e ∈ args, WritesOf .relation e e.words) :
    WritesOf .suffixed (.call ⟨callee, none, none⟩ args openParen none)
      (callee.nameWord :: Word.inParens (Word.listed (args.map words))) := by
  have hargs := Writes.listed h
  refine ⟨List.forall_mem_cons.mpr ⟨hcallee.legal,
    Word.forall_legal_enclosed rfl rfl hargs.legal⟩, fun ht => ?_⟩
  obtain ⟨s, _, rfl, hs, ht⟩ := List.map_eq_cons_iff.mp ht
  obtain ⟨o, v, c, rfl, ho, hv, hc⟩ := Word.exists_of_enclosed ht
  obtain ⟨args', hargs', hbare⟩ := hargs.reads hv
  refine ⟨.call ⟨s, none, none⟩ args' o none, exists_call hargs' (kind_eq hs) ho hc, ?_⟩
  simp only [bare, mapTokens, Ident.mapToken, Token.bare, Token.bareName_eq hs, mapAll_eq, hbare]

theorem Printable.writes {e : Expr} (h : e.Printable) : WritesOf .relation e e.words := by
  induction h with
  | literal hvalue => exact (writes_literal hvalue).loosen (Nat.zero_le _)
  | ident ht => exact (writes_name ht).loosen (Nat.zero_le _)
  | unary h ih => exact (writes_unary (h.writes_operand ih)).loosen (Nat.zero_le _)
  | @binary op _ _ _ hmember hl hr ihl ihr =>
      have hleft := hl.writes_operand ihl
      have hright := hr.writes_operand ihr
      by_cases hsubscript : op = .subscript
      · subst hsubscript
        exact (writes_subscript hleft hright).loosen (by decide)
      · exact writes_infix hsubscript hmember hleft hright
  | member hl hname ihl =>
      exact (writes_member (hl.writes_operand ihl) hname).loosen (by decide)
  | @call callee openParen args hcallee _ ih =>
      rw [words, wordsAll_eq]
      exact (writes_call hcallee ih).loosen (by decide)

end Expr

/-! ## Statements -/

theorem TypeName.Printable.writes {t : TypeName} (h : t.Printable) :
    Writes TypeName.SpelledBy (TypeName.mapToken Token.bareName) t t.words := by
  obtain ⟨token, isArray, _⟩ := t
  obtain ⟨hnames, rfl⟩ := h
  cases isArray with
  | false =>
      refine ⟨List.forall_mem_singleton.mpr hnames.legal, fun ht => ?_⟩
      obtain ⟨s, rfl, hs⟩ := List.map_eq_singleton_iff.mp ht
      refine ⟨⟨s, false, none⟩, .plain (kind_eq hs), ?_⟩
      simp only [TypeName.mapToken, Token.bareName_eq hs]
  | true =>
      refine ⟨List.forall_mem_cons.mpr ⟨hnames.legal,
        Word.forall_legal_enclosed rfl rfl (List.forall_mem_nil _)⟩, fun ht => ?_⟩
      obtain ⟨s, _, rfl, hs, ht⟩ := List.map_eq_cons_iff.mp ht
      obtain ⟨o, v, c, rfl, ho, hv, hc⟩ := Word.exists_of_enclosed ht
      obtain rfl := List.map_eq_nil_iff.mp hv
      refine ⟨⟨s, true, none⟩, .array (kind_eq hs) ho hc, ?_⟩
      simp only [TypeName.mapToken, Token.bareName_eq hs]

theorem Expr.Printable.writes_initializer {e : Expr} (h : e.Printable) :
    Writes (Initializer Expr.SpelledBy) Expr.bare e e.initializerWords := by
  refine ⟨List.forall_mem_cons.mpr ⟨.ofKind rfl, h.writes.legal⟩, fun ht => ?_⟩
  obtain ⟨sign, v, rfl, hsign, hv⟩ := List.map_eq_cons_iff.mp ht
  obtain ⟨e', he', hbare⟩ := h.writes.reads hv
  exact ⟨e', ⟨sign, v, kind_eq hsign, he', rfl⟩, hbare⟩

namespace Stmt

theorem endsOpen_bare (s : Stmt) : s.bare.endsOpen = s.endsOpen := by
  induction s using Stmt.tree_induction with
  | ifThenElse _ _ _ _ _ ih => simpa only [bare, mapTokens, endsOpen] using ih
  | whileLoop _ _ _ ih => simpa only [bare, mapTokens, endsOpen] using ih
  | _ => rfl

abbrev WritesAs (s : Stmt) (ws : List Word) : Prop :=
  Writes (SpelledBy Expr.SpelledBy) bare s ws

variable {condition : Expr} {ws : List Word} {tokens : List Token}

/-- What a word, a condition in parentheses and further words are read as. -/
theorem exists_of_condition (h : condition.Printable) {k : TokenKind}
    (ht : tokens.map Token.word =
      Word.ofKind k :: (Word.inParens condition.words ++ ws)) :
    ∃ t o w c v, ∃ e : Expr, tokens = t :: o :: (w ++ c :: v) ∧ t.kind = k ∧ o.kind = .openParen ∧
      e.SpelledBy w ∧ c.kind = .closeParen ∧ v.map Token.word = ws ∧ e.bare = condition.bare := by
  obtain ⟨t, _, rfl, hkind, ht⟩ := List.map_eq_cons_iff.mp ht
  obtain ⟨u, v, rfl, hu, hv⟩ := List.map_eq_append_iff.mp ht
  obtain ⟨o, w, c, rfl, ho, hw, hc⟩ := Word.exists_of_enclosed hu
  obtain ⟨e, he, hbare⟩ := h.writes.reads hw
  exact ⟨t, o, w, c, v, e, by simp, kind_eq hkind, ho, he, hc, hv, hbare⟩

theorem forall_legal_condition (h : condition.Printable) {k : TokenKind}
    (hk : k.spelling?.isSome) (hws : ∀ w ∈ ws, w.Legal) :
    ∀ w ∈ Word.ofKind k :: (Word.inParens condition.words ++ ws), w.Legal :=
  List.forall_mem_cons.mpr ⟨.ofKind hk, List.forall_mem_append.mpr
    ⟨Word.forall_legal_enclosed rfl rfl h.writes.legal, hws⟩⟩

theorem forall_legal_semicolon (hws : ∀ w ∈ ws, w.Legal) :
    ∀ w ∈ ws ++ [Word.ofKind .semicolon], w.Legal :=
  List.forall_mem_append.mpr ⟨hws, List.forall_mem_singleton.mpr (.ofKind rfl)⟩

theorem exists_of_semicolon (ht : tokens.map Token.word = ws ++ [Word.ofKind .semicolon]) :
    ∃ v semicolon, tokens = v ++ [semicolon] ∧ v.map Token.word = ws ∧
      semicolon.kind = .semicolon := by
  obtain ⟨v, _, rfl, hv, ht⟩ := List.map_eq_append_iff.mp ht
  obtain ⟨semicolon, rfl, hkind⟩ := List.map_eq_singleton_iff.mp ht
  exact ⟨v, semicolon, rfl, hv, kind_eq hkind⟩

variable {t : Token} {body thenBranch elseBranch : Stmt}

theorem writes_empty : (empty t).WritesAs (empty t).words := by
  refine ⟨List.forall_mem_singleton.mpr (.ofKind rfl), fun ht => ?_⟩
  obtain ⟨s, rfl, hs⟩ := List.map_eq_singleton_iff.mp ht
  exact ⟨.empty s, .empty (kind_eq hs), rfl⟩

theorem writes_breakLoop : (breakLoop t).WritesAs (breakLoop t).words := by
  refine ⟨List.forall_mem_cons.mpr ⟨.ofKind rfl, List.forall_mem_singleton.mpr (.ofKind rfl)⟩,
    fun ht => ?_⟩
  obtain ⟨s, _, rfl, hs, ht⟩ := List.map_eq_cons_iff.mp ht
  obtain ⟨semicolon, rfl, hsemicolon⟩ := List.map_eq_singleton_iff.mp ht
  exact ⟨.breakLoop s, .breakLoop (kind_eq hs) (kind_eq hsemicolon), rfl⟩

theorem writes_whileLoop (hcondition : condition.Printable) (hbody : body.WritesAs body.words) :
    (whileLoop condition body t).WritesAs (whileLoop condition body t).words := by
  refine ⟨forall_legal_condition hcondition rfl hbody.legal, fun ht => ?_⟩
  obtain ⟨s, o, w, c, v, e, rfl, hs, ho, he, hc, hv, hbare⟩ := exists_of_condition hcondition ht
  obtain ⟨st, hst, hbare'⟩ := hbody.reads hv
  refine ⟨.whileLoop e st s, .whileLoop hs ho he hc hst, ?_⟩
  simp only [bare, mapTokens, Token.bare, hbare, hbare']

theorem writes_ifThen (hcondition : condition.Printable)
    (hthen : thenBranch.WritesAs thenBranch.words) :
    (ifThen condition thenBranch t).WritesAs (ifThen condition thenBranch t).words := by
  refine ⟨forall_legal_condition hcondition rfl hthen.legal, fun ht => ?_⟩
  obtain ⟨s, o, w, c, v, e, rfl, hs, ho, he, hc, hv, hbare⟩ := exists_of_condition hcondition ht
  obtain ⟨st, hst, hbare'⟩ := hthen.reads hv
  refine ⟨.ifThen e st s, .ifThen hs ho he hc hst, ?_⟩
  simp only [bare, mapTokens, Token.bare, hbare, hbare']

theorem writes_ifThenElse (hcondition : condition.Printable)
    (hthen : thenBranch.WritesAs thenBranch.words) (hopen : thenBranch.endsOpen = false)
    (helse : elseBranch.WritesAs elseBranch.words) :
    (ifThenElse condition thenBranch elseBranch t).WritesAs
      (ifThenElse condition thenBranch elseBranch t).words := by
  have hbranches := List.forall_mem_append.mpr
    ⟨hthen.legal, List.forall_mem_cons.mpr ⟨.ofKind (k := .elseWord) rfl, helse.legal⟩⟩
  refine ⟨forall_legal_condition hcondition rfl hbranches, fun ht => ?_⟩
  obtain ⟨s, o, w, c, u, e, rfl, hs, ho, he, hc, hu, hbare⟩ := exists_of_condition hcondition ht
  obtain ⟨v, _, rfl, hv, hu⟩ := List.map_eq_append_iff.mp hu
  obtain ⟨other, u, rfl, hother, hu⟩ := List.map_eq_cons_iff.mp hu
  obtain ⟨st, hst, hbare'⟩ := hthen.reads hv
  obtain ⟨st', hst', hbare''⟩ := helse.reads hu
  -- the branch that was read ends as the printed one does
  rw [← endsOpen_bare, ← hbare', endsOpen_bare] at hopen
  refine ⟨.ifThenElse e st st' s, .ifThenElse hs ho he hc hst hopen (kind_eq hother) hst', ?_⟩
  simp only [bare, mapTokens, Token.bare, hbare, hbare', hbare'']

/-- What statements in a row between braces are read as. -/
theorem writes_braced {ss : List Stmt} (h : ∀ s ∈ ss, s.WritesAs s.words) (openBrace : Token) :
    Writes (Braced Expr.SpelledBy) (Prod.map (List.map bare) Token.bare) (ss, openBrace)
      (Word.enclosed .openCurly .closeCurly (ss.flatMap words)) := by
  have hstatements := Writes.repeated h
  refine ⟨Word.forall_legal_enclosed rfl rfl hstatements.legal, fun ht => ?_⟩
  obtain ⟨o, v, c, rfl, ho, hv, hc⟩ := Word.exists_of_enclosed ht
  obtain ⟨ss', hss', hbare⟩ := hstatements.reads hv
  refine ⟨(ss', o), .intro ho hss' hc, ?_⟩
  simp only [Prod.map, Token.bare, hbare]

theorem writes_block {ss : List Stmt} (h : ∀ s ∈ ss, s.WritesAs s.words) {openBrace : Token} :
    (block ss openBrace).WritesAs (block ss openBrace).words := by
  have hbraced := writes_braced h openBrace
  rw [words, wordsAll_eq]
  refine ⟨hbraced.legal, fun ht => ?_⟩
  obtain ⟨⟨ss', o⟩, hss', hbare⟩ := hbraced.reads ht
  refine ⟨.block ss' o, hss'.stmt, ?_⟩
  simp only [bare, mapTokens, mapAll_eq, Token.bare, (Prod.mk.inj hbare).1]

theorem writes_assign {target : Token} {value : Expr} (htarget : target.Names)
    (hvalue : value.Printable) :
    (assign ⟨target, none, none⟩ value).WritesAs (assign ⟨target, none, none⟩ value).words := by
  refine ⟨List.forall_mem_cons.mpr ⟨htarget.legal, List.forall_mem_cons.mpr
    ⟨.ofKind rfl, forall_legal_semicolon hvalue.writes.legal⟩⟩, fun ht => ?_⟩
  obtain ⟨s, _, rfl, hs, ht⟩ := List.map_eq_cons_iff.mp ht
  obtain ⟨sign, _, rfl, hsign, ht⟩ := List.map_eq_cons_iff.mp ht
  obtain ⟨v, semicolon, rfl, hv, hsemicolon⟩ := exists_of_semicolon ht
  obtain ⟨e, he, hbare⟩ := hvalue.writes.reads hv
  refine ⟨.assign ⟨s, none, none⟩ e, .assign (kind_eq hs) (kind_eq hsign) he hsemicolon, ?_⟩
  simp only [bare, mapTokens, Ident.mapToken, Token.bareName_eq hs, hbare]

theorem writes_returnValue {value? : Option Expr} (h : ∀ e ∈ value?, e.Printable) :
    (returnValue value? t).WritesAs (returnValue value? t).words := by
  have hvalue := Writes.possibly fun e he => (h e he).writes
  refine ⟨List.forall_mem_cons.mpr ⟨.ofKind rfl, forall_legal_semicolon hvalue.legal⟩,
    fun ht => ?_⟩
  obtain ⟨s, _, rfl, hs, ht⟩ := List.map_eq_cons_iff.mp ht
  obtain ⟨v, semicolon, rfl, hv, hsemicolon⟩ := exists_of_semicolon ht
  obtain ⟨e?, he, hbare⟩ := hvalue.reads hv
  refine ⟨.returnValue e? s, .returnValue (kind_eq hs) he hsemicolon, ?_⟩
  simp only [bare, mapTokens, Token.bare, hbare]

theorem writes_varDecl {type : TypeName} {name : Token} {initializer? : Option Expr}
    (htype : type.Printable) (hname : name.Names) (h : ∀ e ∈ initializer?, e.Printable) :
    (varDecl type name initializer? none).WritesAs
      (varDecl type name initializer? none).words := by
  have hvalue := Writes.possibly fun e he => (h e he).writes_initializer
  refine ⟨List.forall_mem_append.mpr ⟨htype.writes.legal, List.forall_mem_cons.mpr
    ⟨hname.legal, forall_legal_semicolon hvalue.legal⟩⟩, fun ht => ?_⟩
  obtain ⟨w, _, rfl, hw, ht⟩ := List.map_eq_append_iff.mp ht
  obtain ⟨s, _, rfl, hs, ht⟩ := List.map_eq_cons_iff.mp ht
  obtain ⟨v, semicolon, rfl, hv, hsemicolon⟩ := exists_of_semicolon ht
  obtain ⟨type', htype', hbare⟩ := htype.writes.reads hw
  obtain ⟨e?, he, hbare'⟩ := hvalue.reads hv
  refine ⟨.varDecl type' s e? none, .varDecl htype' (kind_eq hs) he hsemicolon, ?_⟩
  simp only [bare, mapTokens, Token.bareName_eq hs, hbare, hbare']

theorem writes_callStmt {callee openParen : Token} {args : List Expr} (hcallee : callee.Names)
    (h : ∀ e ∈ args, e.Printable) :
    (call ⟨callee, none, none⟩ args openParen).WritesAs
      (call ⟨callee, none, none⟩ args openParen).words := by
  have hargs := Writes.listed fun e he => (h e he).writes
  refine ⟨List.forall_mem_cons.mpr ⟨hcallee.legal, forall_legal_semicolon
    (Word.forall_legal_enclosed rfl rfl hargs.legal)⟩, fun ht => ?_⟩
  obtain ⟨s, _, rfl, hs, ht⟩ := List.map_eq_cons_iff.mp ht
  obtain ⟨u, semicolon, rfl, hu, hsemicolon⟩ := exists_of_semicolon ht
  obtain ⟨o, v, c, rfl, ho, hv, hc⟩ := Word.exists_of_enclosed hu
  obtain ⟨args', hargs', hbare⟩ := hargs.reads hv
  refine ⟨.call ⟨s, none, none⟩ args' o, ?_, ?_⟩
  · rw [List.cons_append, List.append_assoc]
    exact .call (kind_eq hs) ho hargs' hc hsemicolon
  · simp only [bare, mapTokens, Ident.mapToken, Token.bare, Token.bareName_eq hs, hbare]

theorem Printable.writes {s : Stmt} (h : s.Printable) : s.WritesAs s.words := by
  induction h with
  | empty => exact writes_empty
  | breakLoop => exact writes_breakLoop
  | whileLoop hcondition _ ih => exact writes_whileLoop hcondition ih
  | ifThen hcondition _ ih => exact writes_ifThen hcondition ih
  | ifThenElse hcondition _ hopen _ ih ih' => exact writes_ifThenElse hcondition ih hopen ih'
  | block _ ih => exact writes_block ih
  | assign htarget hvalue => exact writes_assign htarget hvalue
  | returnValue hvalue => exact writes_returnValue hvalue
  | varDecl htype hname hvalue => exact writes_varDecl htype hname hvalue
  | call hcallee hargs => exact writes_callStmt hcallee hargs

end Stmt

/-! ## Programs -/

theorem Param.Printable.writes {p : Param} (h : p.Printable) :
    Writes Param.SpelledBy (Param.mapTokens Token.bareName) p p.words := by
  obtain ⟨type, name, _⟩ := p
  obtain ⟨htype, hname, rfl⟩ := h
  refine ⟨List.forall_mem_append.mpr
    ⟨htype.writes.legal, List.forall_mem_singleton.mpr hname.legal⟩, fun ht => ?_⟩
  obtain ⟨w, _, rfl, hw, ht⟩ := List.map_eq_append_iff.mp ht
  obtain ⟨s, rfl, hs⟩ := List.map_eq_singleton_iff.mp ht
  obtain ⟨type', htype', hbare⟩ := htype.writes.reads hw
  refine ⟨⟨type', s, none⟩, .intro htype' (kind_eq hs), ?_⟩
  simp only [Param.mapTokens, Token.bareName_eq hs, hbare]

theorem FnDef.Printable.writes {f : FnDef} (h : f.Printable) :
    Writes (FnDef.SpelledBy Expr.SpelledBy) (FnDef.mapTokens Token.bareName Token.bare) f
      f.words := by
  obtain ⟨type, name, params, openParen, body, openBrace, _⟩ := f
  obtain ⟨htype, hname, hparams, hbody, rfl⟩ := h
  have hlist := Writes.listed fun p hp => (hparams p hp).writes
  have hbraced := Stmt.writes_braced (fun s hs => (hbody s hs).writes) openBrace
  refine ⟨List.forall_mem_append.mpr ⟨htype.writes.legal, List.forall_mem_cons.mpr
    ⟨hname.legal, List.forall_mem_append.mpr
      ⟨Word.forall_legal_enclosed rfl rfl hlist.legal, hbraced.legal⟩⟩⟩, fun ht => ?_⟩
  obtain ⟨w, _, rfl, hw, ht⟩ := List.map_eq_append_iff.mp ht
  obtain ⟨s, _, rfl, hs, ht⟩ := List.map_eq_cons_iff.mp ht
  obtain ⟨x, u, rfl, hx, hu⟩ := List.map_eq_append_iff.mp ht
  obtain ⟨o, v, c, rfl, ho, hv, hc⟩ := Word.exists_of_enclosed hx
  obtain ⟨type', htype', hbare⟩ := htype.writes.reads hw
  obtain ⟨params', hparams', hbare'⟩ := hlist.reads hv
  obtain ⟨⟨body', brace⟩, hbody', hbare''⟩ := hbraced.reads hu
  refine ⟨⟨type', s, params', o, body', brace, none⟩, ?_, ?_⟩
  · rw [List.cons_append, List.append_assoc, List.singleton_append]
    exact .intro htype' (kind_eq hs) ho hparams' hc hbody'
  · have hstatements : body'.map Stmt.bare = body.map Stmt.bare := (Prod.mk.inj hbare'').1
    simp only [FnDef.mapTokens, Token.bare, Token.bareName_eq hs, hbare, hbare', hstatements]

theorem GlobalVar.Printable.writes {v : GlobalVar} (h : v.Printable) :
    Writes GlobalVar.SpelledBy (GlobalVar.mapTokens Token.bareName) v v.words := by
  obtain ⟨type, name, _⟩ := v
  obtain ⟨htype, hname, rfl⟩ := h
  refine ⟨List.forall_mem_append.mpr ⟨htype.writes.legal, List.forall_mem_cons.mpr
    ⟨hname.legal, List.forall_mem_singleton.mpr (.ofKind rfl)⟩⟩, fun ht => ?_⟩
  obtain ⟨w, _, rfl, hw, ht⟩ := List.map_eq_append_iff.mp ht
  obtain ⟨s, _, rfl, hs, ht⟩ := List.map_eq_cons_iff.mp ht
  obtain ⟨semicolon, rfl, hsemicolon⟩ := List.map_eq_singleton_iff.mp ht
  obtain ⟨type', htype', hbare⟩ := htype.writes.reads hw
  refine ⟨⟨type', s, none⟩, .intro htype' (kind_eq hs) (kind_eq hsemicolon), ?_⟩
  simp only [GlobalVar.mapTokens, Token.bareName_eq hs, hbare]

theorem Global.Printable.writes {g : Global} (h : g.Printable) :
    Writes (Global.SpelledBy Expr.SpelledBy) (Global.mapTokens Token.bareName Token.bare) g
      g.words := by
  cases h with
  | function hf =>
      refine ⟨hf.writes.legal, fun ht => ?_⟩
      obtain ⟨f', hf', hbare⟩ := hf.writes.reads ht
      exact ⟨.function f', .function hf', congrArg Global.function hbare⟩
  | var hv =>
      refine ⟨hv.writes.legal, fun ht => ?_⟩
      obtain ⟨v', hv', hbare⟩ := hv.writes.reads ht
      exact ⟨.var v', .var hv', congrArg Global.var hbare⟩

theorem Program.Printable.writes {p : Program} (h : p.Printable) :
    Writes (Program.SpelledBy Expr.SpelledBy) Program.bare p p.words := by
  have hglobals := Writes.repeated fun g hg => (h g hg).writes
  refine ⟨hglobals.legal, fun ht => ?_⟩
  obtain ⟨globals, hspelled, hbare⟩ := hglobals.reads ht
  exact ⟨⟨globals⟩, hspelled, congrArg Program.mk hbare⟩

/-- The text of a program that can be printed is read as its words, and these are
parsed as a program that is the same without tokens. -/
theorem Program.ofTokens_text {p : Program} (h : p.Printable) :
    ∃ body last p', Token.ofSource p.text = .ok (body ++ [.endOfInput last]) ∧
      body.map Token.word = p.words ∧
      Program.ofTokens (body ++ [.endOfInput last]) = .ok p' ∧ p'.bare = p.bare := by
  obtain ⟨body, last, hscan, hwords⟩ := Word.readsAs_lineOf h.writes.legal Position.start
  obtain ⟨p', hspelled, hbare⟩ := h.writes.reads hwords
  refine ⟨body, last, p', ?_, hwords, ofTokens_of_spelledBy rfl hspelled, hbare⟩
  rw [Token.ofSource, Source.Scanner.ofSource, text, String.toList_ofList]
  exact hscan

/-- A branch that would be taken for one with an `else` is printed between braces, and a
string with its escapes. -/
theorem Program.ofTokens_text_of_branches :
    let t := TokenKind.endOfInput.sample
    let name (text : String) : Token := ⟨.identifier, text, Position.start⟩
    let read (text : String) : Expr := .ident ⟨name text, none, none⟩
    let condition : Expr :=
      .binary .less (.binary .subscript (read "a") (.literal (.int 1) t none) t none)
        (.unary .neg (read "x") t none) t none
    let thenBranch : Stmt := .block [.ifThen (read "b") (.empty t) t] t
    let elseBranch : Stmt := .returnValue (some (.literal (.string "\"\\") t none)) t
    let p : Program :=
      ⟨[.function ⟨⟨name "int", false, none⟩, name "f", [⟨⟨name "A", true, none⟩, name "a", none⟩],
        t, [.ifThenElse condition thenBranch elseBranch t], t, none⟩]⟩
    p.Printable ∧
      p.text = "int f ( A [ ] a ) \x7b if ( ( a [ 1 ] ) < ( - x ) ) \x7b if ( b ) ; \x7d" ++
        " else return \"\\\"\\\\\" ; \x7d" ∧
      ∃ body last p', Token.ofSource p.text = .ok (body ++ [.endOfInput last]) ∧
        body.map Token.word = p.words ∧
        Program.ofTokens (body ++ [.endOfInput last]) = .ok p' ∧ p'.bare = p.bare := by
  intro t name read condition thenBranch elseBranch p
  have hnames : ∀ text ∈ ["int", "f", "A", "a", "x", "b"], (name text).Names := by
    decide +kernel
  have hread : ∀ text ∈ ["a", "x", "b"], (read text).Printable := by
    intro text ht
    have hsub : ["a", "x", "b"] ⊆ ["int", "f", "A", "a", "x", "b"] := by decide
    exact .ident (hnames text (hsub ht))
  have hcondition : condition.Printable :=
    .binary (by decide)
      (.binary (by decide) (hread "a" (by decide)) (.literal (.int (n := 1) (by decide))))
      (.unary (hread "x" (by decide)))
  have hthen : thenBranch.Printable :=
    .block (List.forall_mem_singleton.mpr (.ifThen (hread "b" (by decide)) .empty))
  have helse : elseBranch.Printable := .returnValue (by simpa using .literal .string)
  have hp : p.Printable := by
    refine List.forall_mem_singleton.mpr (.function ⟨⟨hnames "int" (by decide), rfl⟩,
      hnames "f" (by decide), List.forall_mem_singleton.mpr ?_,
      List.forall_mem_singleton.mpr (.ifThenElse hcondition hthen rfl helse), rfl⟩)
    exact ⟨⟨hnames "A" (by decide), rfl⟩, hnames "a" (by decide), rfl⟩
  exact ⟨hp, by decide +kernel, Program.ofTokens_text hp⟩

end ScriptFront
