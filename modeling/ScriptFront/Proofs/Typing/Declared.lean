import ScriptFront.Proofs.Tree.Induction
import ScriptFront.Proofs.Typing.Declaring

/-!
# What the first analysis leaves

The tree behind the first analysis, next to the tree in front of it and the table
that is left: literals have types, blocks have scopes, and each variable has its
type and its symbol. A run that reports nothing leaves a tree like this.
-/
namespace ScriptFront

variable {types : TypeTable} {t u : SymbolTable} {result : TypeId} {scope : ScopeId}

mutual

/-- The tree `s'` is left of the statement `s` in a scope of a function with the
result type `result`. -/
inductive Stmt.Declared (types : TypeTable) (t : SymbolTable) (result : TypeId) :
    ScopeId → Stmt → Stmt → Prop
  | empty {scope : ScopeId} {token : Token} :
      Stmt.Declared types t result scope (.empty token) (.empty token)
  | breakLoop {scope : ScopeId} {token : Token} :
      Stmt.Declared types t result scope (.breakLoop token) (.breakLoop token)
  | whileLoop {scope : ScopeId} {condition : Expr} {body body' : Stmt} {token : Token} :
      Stmt.Declared types t result scope body body' →
      Stmt.Declared types t result scope (.whileLoop condition body token)
        (.whileLoop (condition.typeLiterals types) body' token)
  | ifThen {scope : ScopeId} {condition : Expr} {thenBranch thenBranch' : Stmt}
      {token : Token} :
      Stmt.Declared types t result scope thenBranch thenBranch' →
      Stmt.Declared types t result scope (.ifThen condition thenBranch token)
        (.ifThen (condition.typeLiterals types) thenBranch' token)
  | ifThenElse {scope : ScopeId} {condition : Expr}
      {thenBranch thenBranch' elseBranch elseBranch' : Stmt} {token : Token} :
      Stmt.Declared types t result scope thenBranch thenBranch' →
      Stmt.Declared types t result scope elseBranch elseBranch' →
      Stmt.Declared types t result scope (.ifThenElse condition thenBranch elseBranch token)
        (.ifThenElse (condition.typeLiterals types) thenBranch' elseBranch' token)
  | block {scope inner : ScopeId} {statements statements' : List Stmt} {openBrace : Token} :
      t.subScope? scope (Stmt.blockScopeName openBrace) = some inner →
      t.Returns result inner → Stmt.AllDeclared types t result inner statements statements' →
      Stmt.Declared types t result scope (.block statements openBrace)
        (.block statements' openBrace)
  | assign {scope : ScopeId} {target : Ident} {value : Expr} :
      Stmt.Declared types t result scope (.assign target value)
        (.assign target (value.typeLiterals types))
  | returnValue {scope : ScopeId} {value? : Option Expr} {token : Token} :
      Stmt.Declared types t result scope (.returnValue value? token)
        (.returnValue (value?.map (·.typeLiterals types)) token)
  | varDecl {scope : ScopeId} {type : TypeName} {name : Token} {initializer? : Option Expr}
      {symbol? : Option SymbolId} {resolved : TypeId} {id : SymbolId} :
      types.get? type.fullName = some resolved → t.local? scope name.text = some id →
      Stmt.Declared types t result scope (.varDecl type name initializer? symbol?)
        (.varDecl { type with resolved? := some resolved } name
          (initializer?.map (·.typeLiterals types)) (some id))
  | call {scope : ScopeId} {callee : Ident} {args : List Expr} {openParen : Token} :
      Stmt.Declared types t result scope (.call callee args openParen)
        (.call callee (Expr.typeLiterals.typeAll types args) openParen)

inductive Stmt.AllDeclared (types : TypeTable) (t : SymbolTable) (result : TypeId) :
    ScopeId → List Stmt → List Stmt → Prop
  | nil {scope : ScopeId} : Stmt.AllDeclared types t result scope [] []
  | cons {scope : ScopeId} {s s' : Stmt} {ss ss' : List Stmt} :
      Stmt.Declared types t result scope s s' → Stmt.AllDeclared types t result scope ss ss' →
      Stmt.AllDeclared types t result scope (s :: ss) (s' :: ss')

end

/-- The statement declares the name, itself or in a statement inside of it. -/
inductive Stmt.Declares (name : Token) : Stmt → Prop
  | varDecl {type : TypeName} {initializer? : Option Expr} {symbol? : Option SymbolId} :
      Declares name (.varDecl type name initializer? symbol?)
  | whileLoop {condition : Expr} {body : Stmt} {token : Token} :
      Declares name body → Declares name (.whileLoop condition body token)
  | ifThen {condition : Expr} {thenBranch : Stmt} {token : Token} :
      Declares name thenBranch → Declares name (.ifThen condition thenBranch token)
  | thenBranch {condition : Expr} {thenBranch elseBranch : Stmt} {token : Token} :
      Declares name thenBranch →
      Declares name (.ifThenElse condition thenBranch elseBranch token)
  | elseBranch {condition : Expr} {thenBranch elseBranch : Stmt} {token : Token} :
      Declares name elseBranch →
      Declares name (.ifThenElse condition thenBranch elseBranch token)
  | block {statements : List Stmt} {openBrace : Token} {s : Stmt} :
      s ∈ statements → Declares name s → Declares name (.block statements openBrace)

theorem Stmt.AllDeclared.grow {ss ss' : List Stmt}
    (ih : ∀ s ∈ ss, ∀ {scope s'}, Stmt.Declared types t result scope s s' →
      Stmt.Declared types u result scope s s')
    (h : Stmt.AllDeclared types t result scope ss ss') :
    Stmt.AllDeclared types u result scope ss ss' := by
  induction ss generalizing ss' with
  | nil =>
      cases h
      exact .nil
  | cons s ss ihs =>
      cases h with
      | cons hs hss =>
          exact .cons (ih s (by simp) hs) (ihs (fun s' hs' => ih s' (by simp [hs'])) hss)

theorem Stmt.Declared.grow (hu : t.Grows u) {s s' : Stmt}
    (h : Stmt.Declared types t result scope s s') : Stmt.Declared types u result scope s s' := by
  induction s using Stmt.tree_induction generalizing scope s' with
  | empty | breakLoop | assign | returnValue | call =>
      cases h
      constructor
  | whileLoop condition body token ih =>
      cases h with
      | whileLoop hbody => exact .whileLoop (ih hbody)
  | ifThen condition thenBranch token ih =>
      cases h with
      | ifThen hthen => exact .ifThen (ih hthen)
  | ifThenElse condition thenBranch elseBranch token ihthen ihelse =>
      cases h with
      | ifThenElse hthen helse => exact .ifThenElse (ihthen hthen) (ihelse helse)
  | block statements openBrace ih =>
      cases h with
      | block hinner hreturns hall =>
          exact .block (hu.opened hinner) (hu.returns hreturns) (hall.grow ih)
  | varDecl type name initializer? symbol? =>
      cases h with
      | varDecl htype hname => exact .varDecl htype (hu.declared hname)

/-! ## Statements -/

/-- What a clean run from `t` leaves of a statement. -/
def Stmt.Passes (types : TypeTable) (result : TypeId) (scope : ScopeId) (t : SymbolTable)
    (s s' : Stmt) (u : SymbolTable) : Prop :=
  t.Grows u ∧ u.Valid ∧ s.Declared types u result scope s'

/-- What a clean run from `t` leaves of the statements of a list. -/
def Stmt.AllPass (types : TypeTable) (result : TypeId) (scope : ScopeId) (t : SymbolTable)
    (ss ss' : List Stmt) (u : SymbolTable) : Prop :=
  t.Grows u ∧ u.Valid ∧ Stmt.AllDeclared types u result scope ss ss'

theorem Stmt.declareAll_leads {ss : List Stmt} {loops : ℕ} (ht : t.Valid)
    (hs : t.Returns result scope)
    (ih : ∀ s ∈ ss, ∀ {t : SymbolTable}, t.Valid → t.Returns result scope →
      (s.declare types scope loops).Leads t (s.Passes types result scope t)) :
    (Stmt.declare.declareAll types scope loops ss).Leads t
      (Stmt.AllPass types result scope t ss) := by
  induction ss generalizing t with
  | nil => exact .pure ⟨.refl t, ht, .nil⟩
  | cons s ss ihs =>
      unfold Stmt.declare.declareAll
      refine Declaring.Leads.seq (ih s (by simp) ht hs) ?_
      rintro s' u ⟨hgrow, hvalid, hs'⟩
      refine Declaring.Leads.seq (ihs hvalid (hgrow.returns hs)
        fun s' hs' => ih s' (by simp [hs'])) ?_
      rintro ss' v ⟨hgrow', hvalid', hss'⟩
      exact .pure ⟨hgrow.trans hgrow', hvalid', .cons (hs'.grow hgrow') hss'⟩

theorem Stmt.declare_leads {s : Stmt} {loops : ℕ} (ht : t.Valid)
    (hs : t.Returns result scope) (hroot : scope ≠ .global)
    (hname : ∀ name, s.Declares name → name.text ≠ Symbol.returnValueName) :
    (s.declare types scope loops).Leads t (s.Passes types result scope t) := by
  induction s using Stmt.tree_induction generalizing t scope loops with
  | empty token => exact .pure ⟨.refl t, ht, .empty⟩
  | breakLoop token =>
      unfold Stmt.declare
      dsimp only
      split_ifs with hloops
      · exact .bind .report
      · exact .pure ⟨.refl t, ht, .breakLoop⟩
  | whileLoop condition body token ih =>
      unfold Stmt.declare
      refine Declaring.Leads.seq (ih ht hs hroot fun n hn => hname n (.whileLoop hn)) ?_
      intro body' u hbody
      obtain ⟨hgrow, hvalid, hbody⟩ := hbody
      exact .pure ⟨hgrow, hvalid, .whileLoop hbody⟩
  | ifThen condition thenBranch token ih =>
      unfold Stmt.declare
      refine Declaring.Leads.seq (ih ht hs hroot fun n hn => hname n (.ifThen hn)) ?_
      intro then' u hthen
      obtain ⟨hgrow, hvalid, hthen⟩ := hthen
      exact .pure ⟨hgrow, hvalid, .ifThen hthen⟩
  | ifThenElse condition thenBranch elseBranch token ihthen ihelse =>
      unfold Stmt.declare
      refine Declaring.Leads.seq (ihthen ht hs hroot fun n hn => hname n (.thenBranch hn)) ?_
      intro then' u hthen
      obtain ⟨hgrow, hvalid, hthen⟩ := hthen
      refine Declaring.Leads.seq (ihelse hvalid (hgrow.returns hs) hroot
        fun n hn => hname n (.elseBranch hn)) ?_
      intro else' v helse
      obtain ⟨hgrow', hvalid', helse⟩ := helse
      exact .pure ⟨hgrow.trans hgrow', hvalid', .ifThenElse (hthen.grow hgrow') helse⟩
  | block statements openBrace ih =>
      unfold Stmt.declare
      refine Declaring.Leads.seq (Declaring.blockScope?_leads ht hs.known hroot _) ?_
      rintro _ u ⟨inner, rfl, hgrow, hvalid, hinner⟩
      have hreturns := hvalid.returns_inner (hgrow.returns hs) hroot hinner
      have hbelow := hvalid.child_ne_global hinner
      refine Declaring.Leads.seq (Stmt.declareAll_leads hvalid hreturns
        fun s hs _ ht hr => ih s hs ht hr hbelow fun n hn => hname n (.block hs hn)) ?_
      intro ss' v hall
      obtain ⟨hgrow', hvalid', hall⟩ := hall
      exact .pure ⟨hgrow.trans hgrow', hvalid',
        .block (hgrow'.opened hinner) (hgrow'.returns hreturns) hall⟩
  | assign target value => exact .pure ⟨.refl t, ht, .assign⟩
  | returnValue value? token => exact .pure ⟨.refl t, ht, .returnValue⟩
  | varDecl type name initializer? symbol? =>
      unfold Stmt.declare
      refine Declaring.Leads.seq (Declaring.newVariable?_leads _ type name) ?_
      rintro _ u ⟨resolved, id, rfl, htype, hadds⟩
      have hfree : name.text ≠ Symbol.returnValueName := hname name .varDecl
      apply Declaring.Leads.pure
      obtain ⟨hgrow, hvalid⟩ := ht.adds_named hadds ⟨resolved, rfl⟩ rfl nofun hfree
      exact ⟨hgrow, hvalid, .varDecl htype hadds.declared⟩
  | call callee args openParen => exact .pure ⟨.refl t, ht, .call⟩

end ScriptFront
