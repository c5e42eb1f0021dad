import ScriptFront.Proofs.Tree.Names

/-!
# Fresh trees

The parser leaves a tree in which nothing stands for a symbol yet. The first analysis gives
symbols to declared variables, and leaves the names in use for the second one. So what two
runs leave of one tree differs in the symbols of variables only.
-/
namespace ScriptFront

variable {N N' : String → Prop} {S : SymbolId → SymbolId → Prop}

/-! ## Trees from the parser -/

/-- The name is one of `N`, and stands for no symbol yet. -/
def Ident.Fresh (N : String → Prop) (i : Ident) : Prop := i.symbol? = none ∧ N i.name

def Expr.Fresh (N : String → Prop) : Expr → Prop
  | literal _ _ _ => True
  | ident i => i.Fresh N
  | unary _ operand _ _ => operand.Fresh N
  | binary _ left right _ _ => left.Fresh N ∧ right.Fresh N
  | call callee args _ _ => callee.Fresh N ∧ AllFresh args
where
  AllFresh : List Expr → Prop
    | [] => True
    | e :: es => e.Fresh N ∧ AllFresh es

/-- All names in use in the statement are fresh, and no variable has a symbol. -/
def Stmt.Fresh (N : String → Prop) : Stmt → Prop
  | empty _ | breakLoop _ => True
  | whileLoop condition body _ => condition.Fresh N ∧ body.Fresh N
  | ifThen condition thenBranch _ => condition.Fresh N ∧ thenBranch.Fresh N
  | ifThenElse condition thenBranch elseBranch _ =>
      condition.Fresh N ∧ thenBranch.Fresh N ∧ elseBranch.Fresh N
  | block statements _ => AllFresh statements
  | assign target value => target.Fresh N ∧ value.Fresh N
  | returnValue value? _ => ∀ value ∈ value?, value.Fresh N
  | varDecl _ _ initializer? symbol? =>
      symbol? = none ∧ ∀ initializer ∈ initializer?, initializer.Fresh N
  | call callee args _ => callee.Fresh N ∧ ∀ e ∈ args, e.Fresh N
where
  AllFresh : List Stmt → Prop
    | [] => True
    | s :: ss => s.Fresh N ∧ AllFresh ss

/-- The function has no symbol, and its body is fresh. -/
def FnDef.Fresh (N : String → Prop) (f : FnDef) : Prop :=
  f.symbol? = none ∧ ∀ s ∈ f.body, s.Fresh N

def Global.Fresh (N : String → Prop) : Global → Prop
  | function f => f.Fresh N
  | var _ => True

def Global.name : Global → Token
  | function f => f.name
  | var v => v.name

/-- The text of a name in the definition. -/
def Global.HasName (g : Global) (n : String) : Prop := ∃ token ∈ g.names, token.text = n

theorem Expr.allFresh_iff {es : List Expr} : Fresh.AllFresh N es ↔ ∀ e ∈ es, e.Fresh N := by
  induction es with
  | nil => simp [Fresh.AllFresh]
  | cons e es ih => simp [Fresh.AllFresh, ih]

theorem Stmt.allFresh_iff {ss : List Stmt} : Fresh.AllFresh N ss ↔ ∀ s ∈ ss, s.Fresh N := by
  induction ss with
  | nil => simp [Fresh.AllFresh]
  | cons s ss ih => simp [Fresh.AllFresh, ih]

theorem Expr.fresh_typeLiterals {types : TypeTable} (e : Expr) :
    (e.typeLiterals types).Fresh N ↔ e.Fresh N := by
  induction e using tree_induction with
  | literal | ident => rfl
  | unary op operand token type? ih => exact ih
  | binary op left right token type? ihl ihr => exact and_congr ihl ihr
  | call callee args openParen type? ih =>
      refine and_congr_right fun _ => ?_
      induction args with
      | nil => rfl
      | cons e es ihs =>
          exact and_congr (ih e (by simp)) (ihs fun e he => ih e (by simp [he]))

theorem Expr.fresh_typeAll {types : TypeTable} {es : List Expr} :
    (∀ e ∈ typeLiterals.typeAll types es, e.Fresh N) ↔ ∀ e ∈ es, e.Fresh N := by
  induction es with
  | nil => rfl
  | cons e es ih =>
      rw [typeLiterals.typeAll, List.forall_mem_cons, List.forall_mem_cons, ih,
        e.fresh_typeLiterals]

theorem Expr.fresh_typeOptional {types : TypeTable} {e? : Option Expr} :
    (∀ e ∈ e?.map (typeLiterals types), e.Fresh N) ↔ ∀ e ∈ e?, e.Fresh N := by
  cases e? with
  | none => simp
  | some e => simpa using e.fresh_typeLiterals

/-! ## Symbols of variables -/

/-- The symbols that the variables in the statement carry. -/
def Stmt.symbols : Stmt → List SymbolId
  | empty _ | breakLoop _ | assign _ _ | returnValue _ _ | call _ _ _ => []
  | whileLoop _ body _ => body.symbols
  | ifThen _ thenBranch _ => thenBranch.symbols
  | ifThenElse _ thenBranch elseBranch _ => thenBranch.symbols ++ elseBranch.symbols
  | block statements _ => symbolsAll statements
  | varDecl _ _ _ symbol? => symbol?.toList
where
  symbolsAll : List Stmt → List SymbolId
    | [] => []
    | s :: ss => s.symbols ++ symbolsAll ss

theorem Stmt.mem_symbolsAll {ss : List Stmt} {i : SymbolId} :
    i ∈ symbols.symbolsAll ss ↔ ∃ s ∈ ss, i ∈ s.symbols := by
  induction ss with
  | nil => simp [symbols.symbolsAll]
  | cons s ss ih => simp [symbols.symbolsAll, ih]

theorem Stmt.Fresh.symbols_eq {s : Stmt} (h : s.Fresh N) : s.symbols = [] := by
  induction s using tree_induction with
  | empty | breakLoop | assign | returnValue | call => rfl
  | whileLoop condition body token ih => exact ih h.2
  | ifThen condition thenBranch token ih => exact ih h.2
  | ifThenElse condition thenBranch elseBranch token ihthen ihelse =>
      exact List.append_eq_nil_iff.mpr ⟨ihthen h.2.1, ihelse h.2.2⟩
  | block statements openBrace ih =>
      refine List.eq_nil_iff_forall_not_mem.mpr fun i hi => ?_
      obtain ⟨s, hs, hi⟩ := mem_symbolsAll.mp hi
      rw [ih s hs (allFresh_iff.mp h s hs)] at hi
      cases hi
  | varDecl type name initializer? symbol? =>
      obtain ⟨rfl, -⟩ := h
      rfl

theorem Stmt.symbolsAll_of_fresh {ss : List Stmt} (h : ∀ s ∈ ss, s.Fresh N) :
    symbols.symbolsAll ss = [] := by
  refine List.eq_nil_iff_forall_not_mem.mpr fun i hi => ?_
  obtain ⟨s, hs, hi⟩ := mem_symbolsAll.mp hi
  rw [(h s hs).symbols_eq] at hi
  cases hi

/-! ## The parser -/

section
variable {w : List Token}

def ExprPhrase.Fresh (N : String → Prop) : ExprPhrase → Prop
  | expr _ e => e.Fresh N
  | arguments es => Expr.Fresh.AllFresh N es

def StmtPhrase.Fresh (N : String → Prop) : StmtPhrase → Prop
  | stmt s => s.Fresh N
  | stmts ss => Stmt.Fresh.AllFresh N ss

theorem ExprPhrase.SpelledBy.fresh {p : ExprPhrase} (h : p.SpelledBy w)
    (hN : ∀ n ∈ p.names, N n.text) : p.Fresh N := by
  induction h with
  | literal => trivial
  | name => exact ⟨rfl, hN _ (List.mem_singleton.mpr rfl)⟩
  | group _ _ _ ih | plus _ _ ih | neg _ _ ih | not _ _ ih | tighter _ _ ih => exact ih hN
  | subscript _ _ _ _ iha ihb | binary _ _ _ iha ihb =>
      exact ⟨iha fun n hn => hN n (List.mem_append_left _ hn),
        ihb fun n hn => hN n (List.mem_append_right _ hn)⟩
  | member _ _ _ ih =>
      exact ⟨ih fun n hn => hN n (List.mem_append_left _ hn), rfl,
        hN _ (List.mem_append_right _ (List.mem_singleton.mpr rfl))⟩
  | callEmpty _ _ _ ih => exact ⟨ih hN, trivial⟩
  | call _ _ _ _ ihc iha =>
      obtain ⟨hcallee, hargs⟩ := List.forall_mem_cons.mp hN
      exact ⟨ihc (List.forall_mem_singleton.mpr hcallee), iha hargs⟩
  | argument _ ih => exact ⟨ih fun n hn => hN n (List.mem_append_left _ hn), trivial⟩
  | arguments _ _ _ ihe ihes =>
      exact ⟨ihe fun n hn => hN n (List.mem_append_left _ hn),
        ihes fun n hn => hN n (List.mem_append_right _ hn)⟩

theorem StmtPhrase.SpelledBy.fresh {p : StmtPhrase} (h : p.SpelledBy Expr.SpelledBy w)
    (hN : ∀ n ∈ p.names, N n.text) : p.Fresh N := by
  induction h with
  | breakLoop | empty | nil => trivial
  | whileLoop _ _ hcondition _ _ ih | ifThen _ _ hcondition _ _ ih =>
      exact ⟨ExprPhrase.SpelledBy.fresh hcondition fun n hn => hN n (List.mem_append_left _ hn),
        ih fun n hn => hN n (List.mem_append_right _ hn)⟩
  | ifThenElse _ _ hcondition _ _ _ _ _ ihthen ihelse =>
      obtain ⟨hnames, hbranches⟩ := List.forall_mem_append.mp hN
      obtain ⟨hthen, helse⟩ := List.forall_mem_append.mp hbranches
      exact ⟨ExprPhrase.SpelledBy.fresh hcondition hnames, ihthen hthen, ihelse helse⟩
  | call _ _ hargs =>
      obtain ⟨hcallee, hnames⟩ := List.forall_mem_cons.mp hN
      refine ⟨⟨rfl, hcallee⟩, fun e he => ?_⟩
      obtain ⟨v, hv, -⟩ := hargs.exists_of_mem he
      exact ExprPhrase.SpelledBy.fresh hv fun n hn => hnames n (Expr.mem_namesAll.mpr ⟨e, he, hn⟩)
  | returnValue _ hvalue =>
      cases hvalue with
      | none => exact fun _ h => by cases h
      | some hv =>
          rintro _ ⟨⟩
          exact ExprPhrase.SpelledBy.fresh hv fun n hn => hN n (List.mem_append_left _ hn)
  | varDecl _ _ hinitializer =>
      refine ⟨rfl, ?_⟩
      cases hinitializer with
      | none => exact fun _ h => by cases h
      | some hv =>
          obtain ⟨sign, u, -, hu, rfl⟩ := hv
          rintro _ ⟨⟩
          refine ExprPhrase.SpelledBy.fresh hu fun n hn => hN n ?_
          exact List.mem_cons_of_mem _ (List.mem_cons_of_mem _ (List.mem_append_left _ hn))
  | assign _ _ hvalue =>
      obtain ⟨htarget, hnames⟩ := List.forall_mem_cons.mp hN
      exact ⟨⟨rfl, htarget⟩, ExprPhrase.SpelledBy.fresh hvalue hnames⟩
  | block _ _ _ ih => exact ih hN
  | cons _ _ ihs ihss =>
      exact ⟨ihs fun n hn => hN n (List.mem_append_left _ hn),
        ihss fun n hn => hN n (List.mem_append_right _ hn)⟩

theorem Global.SpelledBy.fresh {g : Global} (h : g.SpelledBy Expr.SpelledBy w) :
    g.Fresh g.HasName := by
  cases h with
  | var => trivial
  | function hf =>
      cases hf with
      | intro _ _ _ _ _ hbody =>
          refine ⟨rfl, Stmt.allFresh_iff.mp (StmtPhrase.SpelledBy.fresh hbody.stmt ?_)⟩
          exact fun n hn => ⟨n, List.mem_cons_of_mem _ (List.mem_cons_of_mem _
            (List.mem_append_right _ hn)), rfl⟩

end

/-! ## Two trees left of one -/

mutual

/-- The statements are the same and their names are fresh, but variables have symbols that
are related. -/
inductive Stmt.Twin (N : String → Prop) (S : SymbolId → SymbolId → Prop) : Stmt → Stmt → Prop
  | empty {token : Token} : Stmt.Twin N S (.empty token) (.empty token)
  | breakLoop {token : Token} : Stmt.Twin N S (.breakLoop token) (.breakLoop token)
  | whileLoop {condition : Expr} {body body' : Stmt} {token : Token} :
      condition.Fresh N → Stmt.Twin N S body body' →
      Stmt.Twin N S (.whileLoop condition body token) (.whileLoop condition body' token)
  | ifThen {condition : Expr} {thenBranch thenBranch' : Stmt} {token : Token} :
      condition.Fresh N → Stmt.Twin N S thenBranch thenBranch' →
      Stmt.Twin N S (.ifThen condition thenBranch token) (.ifThen condition thenBranch' token)
  | ifThenElse {condition : Expr} {thenBranch thenBranch' elseBranch elseBranch' : Stmt}
      {token : Token} : condition.Fresh N → Stmt.Twin N S thenBranch thenBranch' →
      Stmt.Twin N S elseBranch elseBranch' →
      Stmt.Twin N S (.ifThenElse condition thenBranch elseBranch token)
        (.ifThenElse condition thenBranch' elseBranch' token)
  | block {statements statements' : List Stmt} {openBrace : Token} :
      Stmt.AllTwin N S statements statements' →
      Stmt.Twin N S (.block statements openBrace) (.block statements' openBrace)
  | assign {target : Ident} {value : Expr} : target.Fresh N → value.Fresh N →
      Stmt.Twin N S (.assign target value) (.assign target value)
  | returnValue {value? : Option Expr} {token : Token} : (∀ value ∈ value?, value.Fresh N) →
      Stmt.Twin N S (.returnValue value? token) (.returnValue value? token)
  | varDecl {type : TypeName} {name : Token} {initializer? : Option Expr}
      {symbol? symbol?' : Option SymbolId} : Option.Rel S symbol? symbol?' →
      (∀ initializer ∈ initializer?, initializer.Fresh N) →
      Stmt.Twin N S (.varDecl type name initializer? symbol?)
        (.varDecl type name initializer? symbol?')
  | call {callee : Ident} {args : List Expr} {openParen : Token} : callee.Fresh N →
      (∀ e ∈ args, e.Fresh N) →
      Stmt.Twin N S (.call callee args openParen) (.call callee args openParen)

/-- The statements of the lists are the same but for related symbols of variables. -/
inductive Stmt.AllTwin (N : String → Prop) (S : SymbolId → SymbolId → Prop) :
    List Stmt → List Stmt → Prop
  | nil : Stmt.AllTwin N S [] []
  | cons {s s' : Stmt} {ss ss' : List Stmt} : Stmt.Twin N S s s' → Stmt.AllTwin N S ss ss' →
      Stmt.AllTwin N S (s :: ss) (s' :: ss')

end

theorem Stmt.AllTwin.of_fresh {ss : List Stmt} (h : ∀ s ∈ ss, s.Twin N S s) :
    AllTwin N S ss ss := by
  induction ss with
  | nil => exact .nil
  | cons s ss ih => exact .cons (h s (by simp)) (ih fun s hs => h s (by simp [hs]))

/-- A tree that the first analysis has passed over. -/
theorem Stmt.Fresh.twin {s : Stmt} (h : s.Fresh N) : s.Twin N S s := by
  induction s using tree_induction with
  | empty => exact .empty
  | breakLoop => exact .breakLoop
  | whileLoop condition body token ih => exact .whileLoop h.1 (ih h.2)
  | ifThen condition thenBranch token ih => exact .ifThen h.1 (ih h.2)
  | ifThenElse condition thenBranch elseBranch token ihthen ihelse =>
      exact .ifThenElse h.1 (ihthen h.2.1) (ihelse h.2.2)
  | block statements openBrace ih =>
      exact .block (.of_fresh fun s hs => ih s hs (allFresh_iff.mp h s hs))
  | assign target value => exact .assign h.1 h.2
  | returnValue value? token => exact .returnValue h
  | varDecl type name initializer? symbol? =>
      obtain ⟨rfl, hinitializer⟩ := h
      exact .varDecl .none hinitializer
  | call callee args openParen => exact .call h.1 h.2

end ScriptFront
