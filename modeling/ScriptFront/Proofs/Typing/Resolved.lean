import ScriptFront.Proofs.Typing.Statements

/-!
# What the second analysis leaves

An analysis that reports nothing leaves no question open in the tree. Every node of an
expression has a type, and that follows from the types of its parts by the rule for
the node. Every name in use carries a symbol of its name and of the kind that its
use requires, and has the type of that symbol. Every written type is resolved.
-/
namespace ScriptFront

variable {types : TypeTable} {symbols : SymbolTable} {result : TypeId} {scope : ScopeId}

/-! ## Resolved trees -/

/-- The written type is resolved to the type that is registered under its name. -/
def TypeName.Resolved (types : TypeTable) (written : TypeName) : Prop :=
  ∃ t, types.get? written.fullName = some t ∧ written.resolved? = some t

/-- The name carries a symbol of the table, which has the same name, and the type of
the symbol. -/
inductive Ident.StandsFor (symbols : SymbolTable) (i : Ident) (symbol : Symbol) : Prop
  | intro {id : SymbolId} {t : TypeId} : i.symbol? = some id →
      symbols.symbol? id = some symbol → symbol.name = i.name → symbol.type? = some t →
      i.type? = some t → StandsFor symbols i symbol

/-- The name stands for something that has a value. -/
def Ident.IsValue (symbols : SymbolTable) (i : Ident) : Prop :=
  ∃ symbol, i.StandsFor symbols symbol ∧ symbol.kind.isVariableLike

/-- What the rules for operators depend on: the registered types. -/
abbrev TypingContext.rules (types : TypeTable) (symbols : SymbolTable) : TypingContext :=
  { types, symbols, scope := .global }

/-- Every node of the expression has the type that the rule for it gives from the types
of its parts, and every name in it carries its symbol. -/
inductive Expr.Resolved (types : TypeTable) (symbols : SymbolTable) : Expr → Prop
  | literal {value : Literal} {token : Token} {t : TypeId} :
      types.get? value.typeName = some t → Resolved types symbols (.literal value token (some t))
  | name {i : Ident} : i.IsValue symbols → Resolved types symbols (.ident i)
  | unary {op : UnaryOp} {operand : Expr} {token : Token} {t : TypeId} :
      Resolved types symbols operand → operand.type? = some t →
      op.Takes (.rules types symbols) t →
      Resolved types symbols (.unary op operand token (some t))
  | binary {op : BinaryOp} {left right : Expr} {token : Token} {t u v : TypeId} :
      Resolved types symbols left → Resolved types symbols right →
      left.type? = some t → right.type? = some u → op.Yields (.rules types symbols) t u v →
      Resolved types symbols (.binary op left right token (some v))
  | call {callee : Ident} {args : List Expr} {openParen : Token} {function : Symbol}
      {t : TypeId} :
      callee.StandsFor symbols function → function.kind = .function →
      (∀ e ∈ args, Resolved types symbols e) →
      args.map type? = function.params.map Prod.snd → function.type? = some t →
      Resolved types symbols (.call callee args openParen (some t))

/-- All expressions of the statement are resolved, and so are the names that it uses
itself and the types of the variables that it declares. A declaration carries its
symbol. -/
inductive Stmt.Resolved (types : TypeTable) (symbols : SymbolTable) : Stmt → Prop
  | empty {token : Token} : Resolved types symbols (.empty token)
  | breakLoop {token : Token} : Resolved types symbols (.breakLoop token)
  | whileLoop {condition : Expr} {body : Stmt} {token : Token} :
      condition.Resolved types symbols → Resolved types symbols body →
      Resolved types symbols (.whileLoop condition body token)
  | ifThen {condition : Expr} {thenBranch : Stmt} {token : Token} :
      condition.Resolved types symbols → Resolved types symbols thenBranch →
      Resolved types symbols (.ifThen condition thenBranch token)
  | ifThenElse {condition : Expr} {thenBranch elseBranch : Stmt} {token : Token} :
      condition.Resolved types symbols → Resolved types symbols thenBranch →
      Resolved types symbols elseBranch →
      Resolved types symbols (.ifThenElse condition thenBranch elseBranch token)
  | block {statements : List Stmt} {openBrace : Token} :
      (∀ s ∈ statements, Resolved types symbols s) →
      Resolved types symbols (.block statements openBrace)
  | assign {target : Ident} {value : Expr} :
      target.IsValue symbols → value.Resolved types symbols →
      Resolved types symbols (.assign target value)
  | returnValue {value? : Option Expr} {token : Token} :
      (∀ e ∈ value?, e.Resolved types symbols) →
      Resolved types symbols (.returnValue value? token)
  | varDecl {type : TypeName} {name : Token} {initializer? : Option Expr} {id : SymbolId}
      {symbol : Symbol} : type.Resolved types →
      symbols.symbol? id = some symbol → symbol.name = name.text →
      (∀ e ∈ initializer?, e.Resolved types symbols) →
      Resolved types symbols (.varDecl type name initializer? (some id))
  | call {callee : Ident} {args : List Expr} {openParen : Token} {function : Symbol} :
      callee.StandsFor symbols function → function.kind = .function →
      (∀ e ∈ args, e.Resolved types symbols) →
      Resolved types symbols (.call callee args openParen)

/-! ## Rules -/

theorem UnaryOp.Takes.rules {Γ : TypingContext} {op : UnaryOp} {t : TypeId} (h : op.Takes Γ t) :
    op.Takes (.rules Γ.types Γ.symbols) t := by
  cases h with
  | neg ht => exact .neg ht
  | not ht => exact .not ht

theorem BinaryOp.Yields.rules {Γ : TypingContext} {op : BinaryOp} {t u v : TypeId}
    (h : op.Yields Γ t u v) : op.Yields (.rules Γ.types Γ.symbols) t u v := by
  cases h with
  | equality hop hb => exact .equality hop hb
  | ordering hop ht hb => exact .ordering hop ht hb
  | connective hop hb => exact .connective hop hb
  | concatenation hs htu => exact .concatenation hs htu
  | arithmetic hop ht => exact .arithmetic hop ht
  | remainder ht => exact .remainder ht
  | subscript hu ht => exact .subscript hu ht

theorem Expr.Resolved.exists_type {e : Expr} (h : e.Resolved types symbols) :
    ∃ t, e.type? = some t := by
  cases h with
  | literal | unary | binary | call => exact ⟨_, rfl⟩
  | name hi =>
      obtain ⟨symbol, ⟨-, -, -, -, htype⟩, -⟩ := hi
      exact ⟨_, htype⟩

/-- The expression is resolved, and the type that was found is that of its root. -/
def Typed.Resolved (types : TypeTable) (symbols : SymbolTable) (x : Typed Expr) : Prop :=
  x.1.Resolved types symbols ∧ x.2 = x.1.type?

theorem Typed.Resolved.exists_type {x : Typed Expr} (h : x.Resolved types symbols) :
    ∃ t, x.2 = some t ∧ x.1.type? = some t := by
  obtain ⟨t, ht⟩ := h.1.exists_type
  exact ⟨t, h.2.trans ht, ht⟩

theorem Typed.exists_are {xs : List (Typed Expr)} (h : ∀ x ∈ xs, Typed.Resolved types symbols x) :
    ∃ ts, Typed.Are xs ts := by
  induction xs with
  | nil => exact ⟨[], rfl⟩
  | cons x xs ih =>
      obtain ⟨t, ht, -⟩ := (h x (by simp)).exists_type
      obtain ⟨ts, hts⟩ := ih fun y hy => h y (List.mem_cons_of_mem _ hy)
      exact ⟨t :: ts, List.cons_eq_cons.mpr ⟨ht, hts⟩⟩

/-! ## Names -/

section
variable {Γ : TypingContext} (h : Γ.symbols.Complete)
include h

theorem Ident.BoundTo.standsFor {i j : Ident} {s : SymbolId × Symbol} {preference : Preference}
    (hj : i.BoundTo j s) (hs : Γ.Denotes preference i.name s.1 s.2) :
    j.StandsFor Γ.symbols s.2 := by
  subst hj
  obtain ⟨scope, hlocal⟩ := SymbolTable.exists_local?_of_lookup? hs.found
  obtain ⟨t, ht⟩ := h.type hs.entry
  exact .intro rfl hs.entry (h.named hlocal hs.entry) ht ht

/-- What has a value and is no function is a variable of some kind. -/
theorem SymbolTable.Complete.isVariableLike {id : SymbolId} {symbol : Symbol}
    (hs : Γ.symbols.symbol? id = some symbol) (hk : symbol.kind ≠ .function) :
    symbol.kind.isVariableLike := by
  have hclass := h.kind hs
  revert hk hclass
  cases symbol.kind <;> decide

theorem Ident.value_leaves (i : Ident) :
    (i.bind Γ.symbols Γ.scope .value).Leaves fun j =>
      (j.valueType Γ.symbols Γ.initializing?).Leaves fun found? =>
        j.IsValue Γ.symbols ∧ found? = j.type? := by
  refine (i.bind_decides h .value).leaves.mono ?_
  rintro j ⟨s, hj, hs, -⟩
  have hstands := hj.standsFor h hs
  refine (Ident.valueType_decides hj hs.entry (h.type hs.entry)).leaves.mono ?_
  rintro _ ⟨t, rfl, hk, -, ht⟩
  refine ⟨⟨s.2, hstands, h.isVariableLike hs.entry hk⟩, ?_⟩
  obtain ⟨-, -, -, ht', htype⟩ := hstands
  rw [htype, ← ht', ht]

end

/-! ## Expressions -/

namespace Expr

variable {Γ : TypingContext}

section
variable (h : Γ.symbols.Complete)
include h

theorem analyzed_ident_leaves (i : Ident) :
    ((ident i).analyzed Γ).Leaves (Typed.Resolved Γ.types Γ.symbols) := by
  unfold analyzed check typeLiterals bindNames
  refine .bind (.bind ((Ident.value_leaves h i).mono fun j hj => .pure ?_))
  unfold infer
  refine hj.seq ?_
  rintro found? ⟨hvalue, rfl⟩
  obtain ⟨symbol, hstands, hk⟩ := hvalue
  obtain ⟨hid, hentry, hname, ht, htype⟩ := hstands
  rw [htype]
  exact .pure ⟨.name ⟨symbol, .intro hid hentry hname ht rfl, hk⟩, rfl⟩

omit h in
theorem analyzedAll_leaves {es : List Expr}
    (ih : ∀ e ∈ es, (e.analyzed Γ).Leaves (Typed.Resolved Γ.types Γ.symbols)) :
    (analyzedAll Γ es).Leaves fun xs => ∀ x ∈ xs, Typed.Resolved Γ.types Γ.symbols x := by
  induction es with
  | nil => exact fun _ _ hx => absurd hx List.not_mem_nil
  | cons e es ihs =>
      refine Reported.Leaves.congr ?_ (analyzedAll_cons e es)
      refine (ih e (by simp)).seq fun x hx => ?_
      refine (ihs fun e he => ih e (List.mem_cons_of_mem _ he)).seq fun xs hxs => ?_
      exact .pure (List.forall_mem_cons.mpr ⟨hx, hxs⟩)

theorem call_leaves (callee : Ident) :
    (callee.bind Γ.symbols Γ.scope .function).Leaves fun j =>
      ∀ xs : List (Typed Expr), (∀ x ∈ xs, Typed.Resolved Γ.types Γ.symbols x) →
        (Typing.call Γ.types Γ.symbols j xs).Leaves fun found? => ∃ function t,
          j.StandsFor Γ.symbols function ∧ function.kind = .function ∧
          (xs.map Prod.fst).map type? = function.params.map Prod.snd ∧
          function.type? = some t ∧ found? = some t := by
  refine (callee.bind_decides h .function).leaves.mono ?_
  rintro j ⟨s, hj, hs, -⟩ xs hxs
  obtain ⟨ts, hts⟩ := Typed.exists_are hxs
  have htypes : (xs.map Prod.fst).map type? = xs.map Prod.snd := by
    rw [List.map_map]
    exact List.map_congr_left fun x hx => (hxs x hx).2.symm
  refine (Typing.call_decides hj hs.entry (h.type hs.entry) (h.params hs.entry) hts).leaves.mono ?_
  rintro _ ⟨t, rfl, hk, hparams, ht⟩
  exact ⟨s.2, t, hj.standsFor h hs, hk, htypes.trans (hts.trans hparams.symm), ht, rfl⟩

end

/-- A silent analysis leaves the expression resolved. -/
theorem analyzed_leaves (h : Γ.symbols.Complete) (hl : Γ.types.HasLiterals) (e : Expr) :
    (e.analyzed Γ).Leaves (Typed.Resolved Γ.types Γ.symbols) := by
  induction e using tree_induction with
  | literal value token type? =>
      obtain ⟨t, ht⟩ := hl value
      have hanalyzed : (literal value token type?).analyzed Γ =
          pure (literal value token (some t), some t) := by
        rw [← ht]
        rfl
      rw [hanalyzed]
      exact .pure ⟨.literal ht, rfl⟩
  | ident i => exact analyzed_ident_leaves h i
  | unary op operand token type? ih =>
      rw [analyzed_unary]
      refine ih.seq fun x hx => ?_
      obtain ⟨t, hfound, ht⟩ := hx.exists_type
      refine (Typing.unary_decides op hfound _).leaves.seq ?_
      rintro _ ⟨u, rfl, hop, rfl⟩
      exact .pure ⟨.unary hx.1 ht hop.rules, rfl⟩
  | binary op left right token type? ihl ihr =>
      by_cases hop : op = .memberAccess
      · subst hop
        rw [analyzed_member]
        refine ihl.seq fun x hx => ?_
        obtain ⟨t, hfound, ht⟩ := hx.exists_type
        refine (Typing.member_decides hfound _).leaves.seq ?_
        rintro _ ⟨_, _, ⟨⟩⟩
      · refine Reported.Leaves.congr ?_ (analyzed_binary hop)
        refine ihl.seq fun x hx => ihr.seq fun y hy => ?_
        obtain ⟨t, hleft, ht⟩ := hx.exists_type
        obtain ⟨u, hright, hu⟩ := hy.exists_type
        refine (Typing.binary_decides hleft hright _ _).leaves.seq ?_
        rintro _ ⟨v, rfl, hyields⟩
        exact .pure ⟨.binary hx.1 hy.1 ht hu hyields.rules, rfl⟩
  | call callee args openParen type? ih =>
      rw [analyzed_call]
      refine (call_leaves h callee).seq fun j hj => (analyzedAll_leaves ih).seq fun xs hxs => ?_
      refine (hj xs hxs).seq ?_
      rintro _ ⟨function, t, hstands, hk, htypes, ht, rfl⟩
      have hargs : ∀ e ∈ xs.map Prod.fst, e.Resolved Γ.types Γ.symbols := by
        intro e he
        obtain ⟨x, hx, rfl⟩ := List.mem_map.mp he
        exact (hxs x hx).1
      exact .pure ⟨.call hstands hk hargs htypes ht, rfl⟩

end Expr

/-! ## Statements -/

/-- What is left of an expression once its names are bound and its type was asked for. -/
theorem Expr.bound_leaves {Γ : TypingContext} (h : Γ.symbols.Complete) (hl : Γ.types.HasLiterals)
    (e : Expr) : (e.bound Γ).Leaves fun e' =>
      (e'.infer Γ.types Γ.symbols Γ.initializing?).Leaves fun x => x.1.Resolved Γ.types Γ.symbols :=
  ((e.analyzed_leaves h hl).mono fun _ hx => hx.1).of_bind

namespace Checking

variable {e : Expr} {Q : Expr → Prop}

theorem condition_leaves (he : (e.infer types symbols none).Leaves fun x => Q x.1)
    (statement : String) (token : Token) :
    (condition types symbols statement token e).Leaves Q := by
  unfold condition
  refine he.seq ?_
  rintro ⟨e', found?⟩ he'
  dsimp only
  split
  · exact .pure he'
  · split_ifs
    · exact .pure he'
    · exact .report

theorem returned_leaves (hreturns : symbols.Returns result scope)
    (he : (e.infer types symbols none).Leaves fun x => Q x.1) (token : Token) :
    (returned types symbols scope token (some e)).Leaves fun value? =>
      ∃ e', value? = some e' ∧ Q e' := by
  unfold returned
  rw [hreturns.returnType?_eq]
  dsimp only
  refine he.seq ?_
  rintro ⟨e', found?⟩ he'
  dsimp only
  split
  · exact .pure ⟨e', rfl, he'⟩
  · split_ifs
    · exact .pure ⟨e', rfl, he'⟩
    · exact .report

theorem nothing_returned_leaves (hreturns : symbols.Returns result scope) (token : Token) :
    (returned types symbols scope token none).Leaves (· = none) := by
  unfold returned
  rw [hreturns.returnType?_eq]
  dsimp only
  split_ifs
  · exact .pure rfl
  · exact .report

end Checking

namespace Stmt

section
variable (h : symbols.Complete) (hl : types.HasLiterals)
include h hl

theorem check_assign_leaves (target : Ident) (value : Expr) :
    ((assign target (value.typeLiterals types)).check types symbols scope).Leaves
      (Resolved types symbols) := by
  have htarget := Ident.value_leaves (Γ := { types, symbols, scope }) h target
  have hvalue := Expr.bound_leaves (Γ := { types, symbols, scope }) h hl value
  unfold check
  refine htarget.seq fun target' htarget' => hvalue.seq fun value' hvalue' => ?_
  refine htarget'.seq fun expected? hexpected => hvalue'.seq ?_
  rintro ⟨value'', received?⟩ hreceived
  exact .bind fun _ => .pure (.assign hexpected.1 hreceived)

theorem check_returnValue_leaves (hreturns : symbols.Returns result scope)
    (value? : Option Expr) (token : Token) :
    ((returnValue (value?.map (·.typeLiterals types)) token).check types symbols scope).Leaves
      (Resolved types symbols) := by
  unfold check
  cases value? with
  | none =>
      refine .bind (.pure ((Checking.nothing_returned_leaves hreturns token).seq ?_))
      rintro _ rfl
      exact .pure (.returnValue (by simp))
  | some value =>
      have hvalue := Expr.bound_leaves (Γ := { types, symbols, scope }) h hl value
      refine .bind (.bind (hvalue.mono fun value' hvalue' => .pure ?_))
      refine (Checking.returned_leaves hreturns hvalue' token).seq ?_
      rintro _ ⟨value'', rfl, hvalue''⟩
      exact .pure (.returnValue (by simpa using hvalue''))

theorem check_varDecl_leaves {type : TypeName} {resolved : TypeId}
    (htype : types.get? type.fullName = some resolved) {name : Token} {id : SymbolId}
    (hid : symbols.local? scope name.text = some id) (initializer? : Option Expr) :
    ((varDecl { type with resolved? := some resolved } name
      (initializer?.map (·.typeLiterals types)) (some id)).check types symbols scope).Leaves
      (Resolved types symbols) := by
  have hresolved : TypeName.Resolved types { type with resolved? := some resolved } :=
    ⟨resolved, htype, rfl⟩
  obtain ⟨symbol, hentry⟩ := h.entry hid
  have hname := h.named hid hentry
  unfold check
  cases initializer? with
  | none => exact .pure (.varDecl hresolved hentry hname (by simp))
  | some initializer =>
      have hinitial := Expr.bound_leaves
        (Γ := { types, symbols, scope, initializing? := some id }) h hl initializer
      refine hinitial.seq fun initializer' hinitial' => hinitial'.seq ?_
      rintro ⟨initializer'', received?⟩ hreceived
      refine .bind fun _ => .pure (.varDecl hresolved hentry hname ?_)
      rintro _ ⟨⟩
      exact hreceived

theorem check_call_leaves (callee : Ident) (args : List Expr) (openParen : Token) :
    ((call callee (Expr.typeLiterals.typeAll types args) openParen).check types symbols
      scope).Leaves (Resolved types symbols) := by
  have hcallee := Expr.call_leaves (Γ := { types, symbols, scope }) h callee
  have hanalyzed : ∀ e ∈ args, (e.analyzed { types, symbols, scope }).Leaves
      (Typed.Resolved types symbols) := fun e _ => e.analyzed_leaves h hl
  have hargs := (Expr.analyzedAll_leaves hanalyzed).of_bind
  unfold check
  refine hcallee.seq fun callee' hcallee' => hargs.seq fun args' hargs' => ?_
  refine hargs'.seq fun xs hxs => (hcallee' xs hxs).seq ?_
  rintro _ ⟨function, t, hstands, hk, -, -, -⟩
  refine .pure (.call hstands hk fun e he => ?_)
  obtain ⟨x, hx, rfl⟩ := List.mem_map.mp he
  exact (hxs x hx).1

omit h hl in
theorem checkAll_leaves {ss ss' : List Stmt}
    (ih : ∀ s ∈ ss, ∀ {s'}, s.Declared types symbols result scope s' →
      (s'.check types symbols scope).Leaves (Resolved types symbols))
    (hs : AllDeclared types symbols result scope ss ss') :
    (check.checkAll types symbols scope ss').Leaves fun ss'' =>
      ∀ s ∈ ss'', s.Resolved types symbols := by
  induction ss generalizing ss' with
  | nil =>
      cases hs
      exact .pure (by simp)
  | cons s ss ihs =>
      cases hs with
      | cons hs hss =>
          unfold check.checkAll
          refine (ih s (by simp) hs).seq fun s'' hs'' => ?_
          refine (ihs (fun s' hs' => ih s' (by simp [hs'])) hss).seq fun ss'' hss'' => ?_
          exact .pure (List.forall_mem_cons.mpr ⟨hs'', hss''⟩)

/-- A silent analysis leaves a statement resolved that was declared. -/
theorem check_leaves {s s' : Stmt} (hreturns : symbols.Returns result scope)
    (hs : s.Declared types symbols result scope s') :
    (s'.check types symbols scope).Leaves (Resolved types symbols) := by
  induction s using tree_induction generalizing scope s' with
  | empty token =>
      cases hs
      exact .pure .empty
  | breakLoop token =>
      cases hs
      exact .pure .breakLoop
  | whileLoop condition body token ih =>
      cases hs with
      | whileLoop hbody =>
          have hcondition := Expr.bound_leaves (Γ := { types, symbols, scope }) h hl condition
          unfold check
          refine hcondition.seq fun e he => (ih hreturns hbody).seq fun body' hbody' => ?_
          exact (Checking.condition_leaves he _ token).seq fun e' he' =>
            .pure (.whileLoop he' hbody')
  | ifThen condition thenBranch token ih =>
      cases hs with
      | ifThen hthen =>
          have hcondition := Expr.bound_leaves (Γ := { types, symbols, scope }) h hl condition
          unfold check
          refine hcondition.seq fun e he => (ih hreturns hthen).seq fun then' hthen' => ?_
          exact (Checking.condition_leaves he _ token).seq fun e' he' =>
            .pure (.ifThen he' hthen')
  | ifThenElse condition thenBranch elseBranch token ihthen ihelse =>
      cases hs with
      | ifThenElse hthen helse =>
          have hcondition := Expr.bound_leaves (Γ := { types, symbols, scope }) h hl condition
          unfold check
          refine hcondition.seq fun e he => (ihthen hreturns hthen).seq fun then' hthen' => ?_
          refine (ihelse hreturns helse).seq fun else' helse' => ?_
          exact (Checking.condition_leaves he _ token).seq fun e' he' =>
            .pure (.ifThenElse he' hthen' helse')
  | block statements openBrace ih =>
      cases hs with
      | block hinner hreturns' hall =>
          unfold check
          rw [hinner]
          exact (checkAll_leaves (fun s hs _ => ih s hs hreturns') hall).seq fun ss hss =>
            .pure (.block hss)
  | assign target value =>
      cases hs
      exact check_assign_leaves h hl target value
  | returnValue value? token =>
      cases hs
      exact check_returnValue_leaves h hl hreturns value? token
  | varDecl type name initializer? symbol? =>
      cases hs with
      | varDecl htype hid => exact check_varDecl_leaves h hl htype hid initializer?
  | call callee args openParen =>
      cases hs
      exact check_call_leaves h hl callee args openParen

end

end Stmt

end ScriptFront
