import ScriptFront.Proofs.Tree.Raw
import ScriptFront.Program.Cleanup

/-!
# The tokens in a tree

All tokens that a tree keeps, in the order of the text. A tree that is spelled by tokens has
made up none: its tokens are among them, in the same order and each at most once. Cleanup
takes some of them away, and the analyses leave them as they are.
-/
namespace ScriptFront

def Expr.tokens : Expr → List Token
  | literal _ token _ => [token]
  | ident i => [i.token]
  | unary _ operand token _ => token :: operand.tokens
  | binary _ left right token _ => left.tokens ++ token :: right.tokens
  | call callee args openParen _ => callee.token :: openParen :: tokensAll args
where
  tokensAll : List Expr → List Token
    | [] => []
    | e :: es => e.tokens ++ tokensAll es

def Expr.tokensOptional (e? : Option Expr) : List Token := e?.toList.flatMap tokens

@[simp] theorem Expr.tokensOptional_some (e : Expr) : tokensOptional (some e) = e.tokens :=
  List.append_nil _

def Stmt.tokens : Stmt → List Token
  | empty token | breakLoop token => [token]
  | whileLoop condition body token => token :: (condition.tokens ++ body.tokens)
  | ifThen condition thenBranch token => token :: (condition.tokens ++ thenBranch.tokens)
  | ifThenElse condition thenBranch elseBranch token =>
      token :: (condition.tokens ++ (thenBranch.tokens ++ elseBranch.tokens))
  | block statements openBrace => openBrace :: tokensAll statements
  | assign target value => target.token :: value.tokens
  | returnValue value? token => token :: Expr.tokensOptional value?
  | varDecl type name initializer? _ =>
      type.token :: name :: Expr.tokensOptional initializer?
  | call callee args openParen => callee.token :: openParen :: Expr.tokens.tokensAll args
where
  tokensAll : List Stmt → List Token
    | [] => []
    | s :: ss => s.tokens ++ tokensAll ss

def Param.tokens (p : Param) : List Token := [p.type.token, p.name]

def FnDef.tokens (f : FnDef) : List Token :=
  f.returnType.token :: f.name :: f.openParen ::
    (f.params.flatMap Param.tokens ++ f.openBrace :: Stmt.tokens.tokensAll f.body)

def Global.tokens : Global → List Token
  | function f => f.tokens
  | var v => [v.type.token, v.name]

def Program.tokens (p : Program) : List Token := p.globals.flatMap Global.tokens

/-! ## The tokens that spell a tree -/

section
variable {item : α → List Token → Prop} {f : α → List Token} {as : List α} {w : List Token}

theorem Repeated.flatMap_sublist (h : Repeated item as w)
    (hitem : ∀ {a w}, item a w → (f a).Sublist w) : (as.flatMap f).Sublist w := by
  induction h with
  | nil => exact List.Sublist.refl _
  | cons ha _ ih => exact (hitem ha).append ih

theorem Listed.flatMap_sublist (h : Listed item as w)
    (hitem : ∀ {a w}, item a w → (f a).Sublist w) : (as.flatMap f).Sublist w := by
  cases h with
  | nil => exact List.Sublist.refl _
  | some h =>
      induction h with
      | single ha => simpa using hitem ha
      | cons ha _ _ ih => exact (hitem ha).append (ih.cons _)

end

variable {w v : List Token} {t : SymbolTable} {scope : ScopeId} {types : TypeTable}

theorem Expr.tokensAll_eq (es : List Expr) : tokens.tokensAll es = es.flatMap tokens := by
  induction es with
  | nil => rfl
  | cons e es ih => rw [tokens.tokensAll, ih, List.flatMap_cons]

def ExprPhrase.tokens : ExprPhrase → List Token
  | expr _ e => e.tokens
  | arguments es => Expr.tokens.tokensAll es

def StmtPhrase.tokens : StmtPhrase → List Token
  | stmt s => s.tokens
  | stmts ss => Stmt.tokens.tokensAll ss

theorem ExprPhrase.SpelledBy.tokens_sublist {p : ExprPhrase} (h : p.SpelledBy w) :
    p.tokens.Sublist w := by
  induction h with
  | literal | name => exact List.Sublist.refl _
  | group _ _ _ ih => exact (ih.trans (List.sublist_append_left _ _)).cons _
  | plus _ _ ih => exact ih.cons _
  | neg _ _ ih | not _ _ ih => exact ih.cons_cons _
  | subscript _ _ _ _ iha ihi =>
      exact iha.append ((ihi.trans (List.sublist_append_left _ _)).cons_cons _)
  | member _ _ _ ih => exact ih.append (List.Sublist.refl _)
  | callEmpty _ _ _ ih => exact List.Sublist.append ih ((List.nil_sublist _).cons_cons _)
  | call _ _ _ _ ihc iha =>
      exact List.Sublist.append ihc ((iha.trans (List.sublist_append_left _ _)).cons_cons _)
  | binary _ _ _ iha ihb => exact iha.append (ihb.cons_cons _)
  | tighter _ _ ih => exact ih
  | argument _ ih => simpa [tokens, Expr.tokens.tokensAll] using ih
  | arguments _ _ _ ihe ihes => exact ihe.append (ihes.cons _)

theorem Expr.tokens_sublist {e : Expr} (h : e.SpelledBy w) : e.tokens.Sublist w :=
  ExprPhrase.SpelledBy.tokens_sublist h

theorem TypeName.SpelledBy.token_sublist {type : TypeName} (h : type.SpelledBy w) :
    [type.token].Sublist w := by
  cases h with
  | plain => exact List.Sublist.refl _
  | array => exact (List.nil_sublist _).cons_cons _

theorem Expr.tokensOptional_sublist {e? : Option Expr} (h : Possibly SpelledBy e? w) :
    (tokensOptional e?).Sublist w := by
  cases h with
  | none => exact List.Sublist.refl _
  | some h => simpa using tokens_sublist h

theorem Expr.initializer_sublist {e? : Option Expr} (h : Possibly (Initializer SpelledBy) e? w) :
    (tokensOptional e?).Sublist w := by
  cases h with
  | none => exact List.Sublist.refl _
  | some h =>
      obtain ⟨sign, v, -, hv, rfl⟩ := h
      simpa using (tokens_sublist hv).cons sign

theorem StmtPhrase.SpelledBy.tokens_sublist {p : StmtPhrase}
    (h : p.SpelledBy Expr.SpelledBy w) : p.tokens.Sublist w := by
  induction h with
  | breakLoop => exact (List.nil_sublist _).cons_cons _
  | empty | nil => exact List.Sublist.refl _
  | whileLoop _ _ hcondition _ _ ih | ifThen _ _ hcondition _ _ ih =>
      exact (((Expr.tokens_sublist hcondition).append (ih.cons _)).cons _).cons_cons _
  | @ifThenElse _ _ closing other _ _ _ _ _ _ _ _ hcondition _ _ _ _ _ ihthen ihelse =>
      have hbranches := (ihthen.append (ihelse.cons other)).cons closing
      exact (((Expr.tokens_sublist hcondition).append hbranches).cons _).cons_cons _
  | call _ _ hargs =>
      have hargs := hargs.flatMap_sublist Expr.tokens_sublist
      rw [← Expr.tokensAll_eq] at hargs
      exact ((hargs.trans (List.sublist_append_left _ _)).cons_cons _).cons_cons _
  | returnValue _ hvalue =>
      have hvalue := Expr.tokensOptional_sublist hvalue
      exact (hvalue.trans (List.sublist_append_left _ _)).cons_cons _
  | varDecl htype _ hinitializer =>
      have hinitializer := Expr.initializer_sublist hinitializer
      refine htype.token_sublist.append (List.Sublist.cons_cons _ ?_)
      exact hinitializer.trans (List.sublist_append_left _ _)
  | assign _ _ hvalue =>
      have hvalue := Expr.tokens_sublist hvalue
      exact ((hvalue.trans (List.sublist_append_left _ _)).cons _).cons_cons _
  | block _ _ _ ih => exact (ih.trans (List.sublist_append_left _ _)).cons_cons _
  | cons _ _ ihs ihss => exact ihs.append ihss

theorem Param.SpelledBy.tokens_sublist {p : Param} (h : p.SpelledBy w) : p.tokens.Sublist w := by
  cases h with
  | intro htype => exact htype.token_sublist.append (List.Sublist.refl _)

theorem Global.SpelledBy.tokens_sublist {g : Global} (h : g.SpelledBy Expr.SpelledBy w) :
    g.tokens.Sublist w := by
  cases h with
  | var hv =>
      cases hv with
      | intro htype =>
          exact htype.token_sublist.append ((List.nil_sublist _).cons_cons _)
  | function hf =>
      cases hf with
      | intro htype _ _ hparams _ hbody =>
          have hparams := hparams.flatMap_sublist Param.SpelledBy.tokens_sublist
          refine htype.token_sublist.append (List.Sublist.cons_cons _ (List.Sublist.cons_cons _ ?_))
          exact hparams.append (hbody.stmt.tokens_sublist.cons _)

/-- The tokens in a program are among those that spell it, in the same order. -/
theorem Program.SpelledBy.tokens_sublist {p : Program} (h : p.SpelledBy Expr.SpelledBy w) :
    p.tokens.Sublist w :=
  Repeated.flatMap_sublist h Global.SpelledBy.tokens_sublist

/-! ## Cleanup -/

theorem Stmt.tokensAll_cleanupList_sublist {ss : List Stmt}
    (ih : ∀ s ∈ ss, s.cleanup.value.tokens.Sublist s.tokens) :
    (tokens.tokensAll (cleanup.cleanupList ss).value).Sublist (tokens.tokensAll ss) := by
  induction ss with
  | nil => exact List.Sublist.refl _
  | cons s ss ihs =>
      have hrest := ihs fun s hs => ih s (by simp [hs])
      unfold cleanup.cleanupList consUnlessEmpty
      split_ifs
      · exact hrest.trans (List.sublist_append_right _ _)
      · exact (ih s (by simp)).append hrest

theorem Stmt.tokens_cleanup_sublist (s : Stmt) : s.cleanup.value.tokens.Sublist s.tokens := by
  induction s using tree_induction with
  | empty | breakLoop | assign | returnValue | varDecl | call => exact List.Sublist.refl _
  | whileLoop condition body token ih | ifThen condition body token ih =>
      exact ((List.Sublist.refl _).append ih).cons_cons _
  | ifThenElse condition thenBranch elseBranch token ihthen ihelse =>
      exact ((List.Sublist.refl _).append (ihthen.append ihelse)).cons_cons _
  | block statements openBrace ih => exact (tokensAll_cleanupList_sublist ih).cons_cons _

theorem Program.tokens_cleanup_sublist (p : Program) :
    p.cleanup.value.tokens.Sublist p.tokens := by
  change ((Global.cleanupAll p.globals).value.flatMap Global.tokens).Sublist
    (p.globals.flatMap Global.tokens)
  induction p.globals with
  | nil => exact List.Sublist.refl _
  | cons g gs ih =>
      refine List.Sublist.append ?_ ih
      cases g with
      | var v => exact List.Sublist.refl _
      | function f =>
          have hbody := Stmt.tokensAll_cleanupList_sublist fun s (_ : s ∈ f.body) =>
            s.tokens_cleanup_sublist
          have hblock := (List.Sublist.refl (f.params.flatMap Param.tokens)).append
            (hbody.cons_cons f.openBrace)
          exact ((hblock.cons_cons _).cons_cons _).cons_cons _

/-! ## The analyses -/

theorem Expr.tokensAll_raw {es : List Expr} (ih : ∀ e ∈ es, e.raw.tokens = e.tokens) :
    tokens.tokensAll (raw.rawAll es) = tokens.tokensAll es := by
  induction es with
  | nil => rfl
  | cons e es ihs =>
      exact congrArg₂ (· ++ ·) (ih e (by simp)) (ihs fun e he => ih e (by simp [he]))

theorem Expr.tokens_raw (e : Expr) : e.raw.tokens = e.tokens := by
  induction e using tree_induction with
  | literal | ident => rfl
  | unary op operand token type? ih => exact congrArg (token :: ·) ih
  | binary op left right token type? ihl ihr => exact congrArg₂ (· ++ token :: ·) ihl ihr
  | call callee args openParen type? ih =>
      exact congrArg (callee.token :: openParen :: ·) (tokensAll_raw ih)

theorem Expr.tokensOptional_raw (e? : Option Expr) :
    tokensOptional (e?.map raw) = tokensOptional e? := by
  cases e? with
  | none => rfl
  | some e => exact congrArg (· ++ []) e.tokens_raw

theorem Stmt.tokensAll_raw {ss : List Stmt} (ih : ∀ s ∈ ss, s.raw.tokens = s.tokens) :
    tokens.tokensAll (raw.rawAll ss) = tokens.tokensAll ss := by
  induction ss with
  | nil => rfl
  | cons s ss ihs =>
      exact congrArg₂ (· ++ ·) (ih s (by simp)) (ihs fun s hs => ih s (by simp [hs]))

theorem Stmt.tokens_raw (s : Stmt) : s.raw.tokens = s.tokens := by
  induction s using tree_induction with
  | empty | breakLoop => rfl
  | whileLoop condition body token ih | ifThen condition body token ih =>
      exact congrArg (token :: ·) (congrArg₂ (· ++ ·) condition.tokens_raw ih)
  | ifThenElse condition thenBranch elseBranch token ihthen ihelse =>
      rw [raw, tokens, condition.tokens_raw, ihthen, ihelse, tokens]
  | block statements openBrace ih =>
      exact congrArg (openBrace :: ·) (tokensAll_raw ih)
  | assign target value => exact congrArg (target.token :: ·) value.tokens_raw
  | returnValue value? token => exact congrArg (token :: ·) (Expr.tokensOptional_raw value?)
  | varDecl type name initializer? symbol? =>
      exact congrArg (type.token :: name :: ·) (Expr.tokensOptional_raw initializer?)
  | call callee args openParen =>
      exact congrArg (callee.token :: openParen :: ·) (Expr.tokensAll_raw fun e _ => e.tokens_raw)

theorem Global.tokens_raw (g : Global) : g.raw.tokens = g.tokens := by
  cases g with
  | var v => rfl
  | function f =>
      have hparams : f.raw.params.flatMap Param.tokens = f.params.flatMap Param.tokens :=
        List.flatMap_map ..
      change f.returnType.token :: f.name :: f.openParen :: (f.raw.params.flatMap Param.tokens ++
        f.openBrace :: Stmt.tokens.tokensAll (Stmt.raw.rawAll f.body)) = f.tokens
      rw [hparams, Stmt.tokensAll_raw fun s _ => s.tokens_raw]
      rfl

theorem Program.tokens_raw (p : Program) : p.raw.tokens = p.tokens := by
  unfold tokens raw
  rw [List.flatMap_map, funext Global.tokens_raw]

theorem Expr.tokens_bindNames (e : Expr) : (e.bindNames t scope).value.tokens = e.tokens := by
  rw [← tokens_raw, raw_bindNames, tokens_raw]

theorem Expr.tokensAll_bindAll (es : List Expr) :
    tokens.tokensAll (bindNames.bindAll t scope es).value = tokens.tokensAll es := by
  induction es with
  | nil => rfl
  | cons e es ih => exact congrArg₂ (· ++ ·) e.tokens_bindNames ih

theorem Program.tokens_declare (p : Program) :
    (p.declare types).Ends t fun p' _ => p'.tokens = p.tokens :=
  p.raw_declare.mono fun p' _ h => by rw [← p'.tokens_raw, h, p.tokens_raw]

end ScriptFront
