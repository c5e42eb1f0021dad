import ScriptFront.Proofs.Program.Housed

/-!
# Trees without findings

The two analyses write types and symbols into a tree and change nothing else: without what
they have found, the tree is what it was.
-/
namespace ScriptFront

/-- The name without its type and its symbol. -/
def Ident.raw (i : Ident) : Ident := ⟨i.token, none, none⟩

/-- The expression without types and symbols. -/
def Expr.raw : Expr → Expr
  | literal value token _ => literal value token none
  | ident i => ident i.raw
  | unary op operand token _ => unary op operand.raw token none
  | binary op left right token _ => binary op left.raw right.raw token none
  | call callee args openParen _ => call callee.raw (rawAll args) openParen none
where
  rawAll : List Expr → List Expr
    | [] => []
    | e :: es => e.raw :: rawAll es

/-- The type as it is written. -/
def TypeName.raw (type : TypeName) : TypeName := ⟨type.token, type.isArray, none⟩

/-- The statement without types and symbols. -/
def Stmt.raw : Stmt → Stmt
  | empty token => empty token
  | breakLoop token => breakLoop token
  | whileLoop condition body token => whileLoop condition.raw body.raw token
  | ifThen condition thenBranch token => ifThen condition.raw thenBranch.raw token
  | ifThenElse condition thenBranch elseBranch token =>
      ifThenElse condition.raw thenBranch.raw elseBranch.raw token
  | block statements openBrace => block (rawAll statements) openBrace
  | assign target value => assign target.raw value.raw
  | returnValue value? token => returnValue (value?.map Expr.raw) token
  | varDecl type name initializer? _ =>
      varDecl type.raw name (initializer?.map Expr.raw) none
  | call callee args openParen => call callee.raw (Expr.raw.rawAll args) openParen
where
  rawAll : List Stmt → List Stmt
    | [] => []
    | s :: ss => s.raw :: rawAll ss

def Param.raw (p : Param) : Param := ⟨p.type.raw, p.name, none⟩

def FnDef.raw (f : FnDef) : FnDef :=
  ⟨f.returnType.raw, f.name, f.params.map Param.raw, f.openParen, Stmt.raw.rawAll f.body,
    f.openBrace, none⟩

def Global.raw : Global → Global
  | function f => function f.raw
  | var v => var ⟨v.type.raw, v.name, none⟩

def Program.raw (p : Program) : Program := ⟨p.globals.map Global.raw⟩

variable {types : TypeTable} {t : SymbolTable} {scope : ScopeId} {loops : ℕ}

/-! ## Expressions -/

theorem Expr.rawAll_typeLiterals {es : List Expr}
    (ih : ∀ e ∈ es, (e.typeLiterals types).raw = e.raw) :
    raw.rawAll (typeLiterals.typeAll types es) = raw.rawAll es := by
  induction es with
  | nil => rfl
  | cons e es ihs =>
      exact congrArg₂ (· :: ·) (ih e (by simp)) (ihs fun e he => ih e (by simp [he]))

theorem Expr.raw_typeLiterals (e : Expr) : (e.typeLiterals types).raw = e.raw := by
  induction e using tree_induction with
  | literal | ident => rfl
  | unary op operand token type? ih => exact congrArg (unary op · token none) ih
  | binary op left right token type? ihl ihr =>
      exact congrArg₂ (binary op · · token none) ihl ihr
  | call callee args openParen type? ih =>
      exact congrArg (call callee.raw · openParen none) (rawAll_typeLiterals ih)

theorem Expr.map_raw_typeLiterals (e? : Option Expr) :
    (e?.map (typeLiterals types)).map raw = e?.map raw := by
  cases e? with
  | none => rfl
  | some e => exact congrArg some e.raw_typeLiterals

theorem Ident.raw_bind (preference : Preference) (i : Ident) :
    (i.bind t scope preference).value.raw = i.raw := by
  unfold bind
  split
  · rfl
  · split
    · rfl
    · dsimp only
      split_ifs <;> rfl

theorem Ident.token_bind (preference : Preference) (i : Ident) :
    (i.bind t scope preference).value.token = i.token :=
  (Ident.mk.inj (i.raw_bind preference)).1

theorem Expr.raw_bindNames (e : Expr) : (e.bindNames t scope).value.raw = e.raw := by
  induction e using tree_induction with
  | literal => rfl
  | ident i => exact congrArg ident (i.raw_bind .value)
  | unary op operand token type? ih => exact congrArg (unary op · token none) ih
  | binary op left right token type? ihl ihr =>
      unfold bindNames
      rw [Reported.value_bind]
      split_ifs
      · exact congrArg (binary op · right.raw token none) ihl
      · exact congrArg₂ (binary op · · token none) ihl ihr
  | call callee args openParen type? ih =>
      refine congrArg₂ (call · · openParen none) (callee.raw_bind .function) ?_
      induction args with
      | nil => rfl
      | cons e es ihs =>
          exact congrArg₂ (· :: ·) (ih e (by simp)) (ihs fun e he => ih e (by simp [he]))

theorem Expr.mem_bindAll {es : List Expr} {e' : Expr}
    (h : e' ∈ (bindNames.bindAll t scope es).value) :
    ∃ e ∈ es, e' = (e.bindNames t scope).value := by
  induction es with
  | nil => cases h
  | cons e es ih =>
      rcases List.mem_cons.mp h with rfl | h
      · exact ⟨e, by simp, rfl⟩
      · obtain ⟨d, hd, rfl⟩ := ih h
        exact ⟨d, by simp [hd], rfl⟩

/-! ## The first analysis -/

open Declaring (Ends)

/-- A step that leaves anything behind. -/
theorem Declaring.Ends.step {α β : Type} {m : Declaring α} {f : α → Declaring β}
    {R : β → SymbolTable → Prop} (hf : ∀ a u, (f a).Ends u R) : (m >>= f).Ends t R :=
  .bind ⟨hf _ _⟩

theorem Stmt.rawAll_declareAll {ss : List Stmt} (ih : ∀ s ∈ ss, ∀ scope t,
    (s.declare types scope loops).Ends t fun s' _ => s'.raw = s.raw) :
    (declare.declareAll types scope loops ss).Ends t fun ss' _ =>
      raw.rawAll ss' = raw.rawAll ss := by
  induction ss generalizing t with
  | nil => exact .pure rfl
  | cons s ss ihs =>
      refine (ih s (by simp) scope t).seq fun s' u hs => ?_
      refine (ihs fun s hs => ih s (by simp [hs])).seq fun ss' v hss => ?_
      exact .pure (congrArg₂ (· :: ·) hs hss)

theorem Declaring.raw_block {openBrace : Token} {statements : List Stmt}
    (h : ∀ scope t, (Stmt.declare.declareAll types scope loops statements).Ends t fun ss _ =>
      Stmt.raw.rawAll ss = Stmt.raw.rawAll statements) :
    (Declaring.block types scope loops openBrace statements).Ends t fun ss _ =>
      Stmt.raw.rawAll ss = Stmt.raw.rawAll statements := by
  refine .step fun inner? u => ?_
  cases inner? with
  | none => exact .pure rfl
  | some inner => exact h inner u

theorem Declaring.raw_newVariable? {kind : SymbolKind} (type : TypeName) (name : Token) :
    (newVariable? types scope kind type name).Ends t fun r _ =>
      ∀ v, r = some v → v.1.raw = type.raw := by
  refine .step fun resolved? u => ?_
  cases resolved? with
  | none => exact .pure nofun
  | some resolved =>
      refine .step fun symbol? v => .report_if (.pure ?_)
      rintro _ ⟨⟩
      rfl

theorem Stmt.raw_declare (s : Stmt) :
    (s.declare types scope loops).Ends t fun s' _ => s'.raw = s.raw := by
  induction s using tree_induction generalizing scope loops t with
  | empty => exact .pure rfl
  | breakLoop token =>
      unfold declare
      exact .report_if (.pure rfl)
  | whileLoop condition body token ih =>
      refine ih.seq fun body' u hbody => .pure ?_
      exact congrArg₂ (whileLoop · · token) condition.raw_typeLiterals hbody
  | ifThen condition thenBranch token ih =>
      refine ih.seq fun thenBranch' u hthen => .pure ?_
      exact congrArg₂ (ifThen · · token) condition.raw_typeLiterals hthen
  | ifThenElse condition thenBranch elseBranch token ihthen ihelse =>
      refine ihthen.seq fun thenBranch' u hthen => ihelse.seq fun elseBranch' v helse => .pure ?_
      rw [raw, condition.raw_typeLiterals, hthen, helse]
      rfl
  | block statements openBrace ih =>
      rw [declare_block]
      refine Ends.seq (Declaring.raw_block fun scope t => ?_) fun ss u hss =>
        .pure (congrArg (block · openBrace) hss)
      exact rawAll_declareAll fun s hs scope t => ih s hs
  | assign target value => exact .pure (congrArg (assign target.raw) value.raw_typeLiterals)
  | returnValue value? token =>
      exact .pure (congrArg (returnValue · token) (Expr.map_raw_typeLiterals value?))
  | call callee args openParen =>
      have hargs : Expr.raw.rawAll (Expr.typeLiterals.typeAll types args) = Expr.raw.rawAll args :=
        Expr.rawAll_typeLiterals fun e _ => e.raw_typeLiterals
      exact .pure (congrArg (call callee.raw · openParen) hargs)
  | varDecl type name initializer? symbol? =>
      have hinitializer : (initializer?.map (Expr.typeLiterals types)).map Expr.raw =
          initializer?.map Expr.raw := Expr.map_raw_typeLiterals initializer?
      refine .seq (Declaring.raw_newVariable? type name) fun v? u hv => ?_
      cases v? with
      | none => exact .pure rfl
      | some v => exact .pure (congrArg₂ (varDecl · name · none) (hv v rfl) hinitializer)

namespace FnDef

theorem raw_declareParams (function : String) (ps : List Param) :
    (declareParams types scope function ps).Ends t fun r _ =>
      r.1.map Param.raw = ps.map Param.raw := by
  induction ps generalizing t with
  | nil => exact .pure rfl
  | cons p ps ih =>
      have hparam : (declareParam types scope function p).Ends t fun r _ =>
          r.1.raw = p.raw := by
        refine .step fun type? u => ?_
        cases type? with
        | none => exact .pure rfl
        | some type =>
            refine .step fun id? v => ?_
            cases id? with
            | none => exact .report (.pure rfl)
            | some id => exact .pure rfl
      refine hparam.seq fun r u hr => ih.seq fun rs v hrs => .pure ?_
      exact congrArg₂ (· :: ·) hr hrs

theorem raw_enter (f : FnDef) : (f.enter types).Ends t fun r _ =>
    r.1.raw = f.raw ∧ r.1.body = f.body := by
  refine .step fun returnType? u => .step fun symbol? v => ?_
  cases symbol? with
  | none => exact .report (.pure ⟨rfl, rfl⟩)
  | some symbol =>
      refine .step fun scope? w => ?_
      cases scope? with
      | none => exact .pure ⟨rfl, rfl⟩
      | some scope =>
          refine .step fun entry? x => .report_if ?_
          refine (raw_declareParams f.name.text f.params).seq fun r y hr => .step fun _ z => ?_
          refine .pure ⟨?_, rfl⟩
          unfold raw
          rw [← hr]
          rfl

end FnDef

theorem Global.raw_declare (g : Global) :
    (g.declare types).Ends t fun g' _ => g'.raw = g.raw := by
  cases g with
  | var v =>
      unfold declare GlobalVar.declare
      dsimp only
      rw [map_eq_pure_bind, bind_assoc]
      refine .seq (Declaring.raw_newVariable? v.type v.name) fun r u hr => ?_
      cases r with
      | none => exact .pure rfl
      | some r => exact .pure (congrArg (fun type => var ⟨type, v.name, none⟩) (hr r rfl))
  | function f =>
      rw [declare_function]
      refine f.raw_enter.seq fun r u hr => ?_
      obtain ⟨hraw, hbody⟩ := hr
      cases r.2 with
      | none => exact .pure (congrArg function hraw)
      | some scope =>
          refine Ends.seq (Declaring.raw_block fun scope t => ?_) fun body v hss => .pure ?_
          · exact Stmt.rawAll_declareAll fun s _ scope t => s.raw_declare
          · refine Eq.trans ?_ (congrArg function hraw)
            change function (FnDef.raw { r.1 with body }) = function r.1.raw
            unfold FnDef.raw
            rw [hss]

/-- The first analysis leaves the program as it was, but for what it has found. -/
theorem Program.raw_declare (p : Program) :
    (p.declare types).Ends t fun p' _ => p'.raw = p.raw := by
  refine Ends.seq (Q := fun gs _ => gs.map Global.raw = p.globals.map Global.raw) ?_
    fun _ _ h => .pure (congrArg Program.mk h)
  induction p.globals generalizing t with
  | nil => exact .pure rfl
  | cons g gs ih =>
      exact g.raw_declare.seq fun g' u hg => ih.seq fun gs' v hgs =>
        .pure (congrArg₂ (· :: ·) hg hgs)

end ScriptFront
