import ScriptFront.Proofs.Program.Uses
import ScriptFront.Proofs.SymbolTable.Nearest

/-!
# Settled uses

The second analysis, if it reports nothing, gives every name that is used as a value the
symbol that is found from the place of the use. It is no function, it is not declared
further down if its place matters, and it is not the variable that is being initialized.
-/
namespace ScriptFront

variable {types : TypeTable} {t : SymbolTable} {result : TypeId} {scope : ScopeId}
  {outer : List ScopeId} {inside? : Option Token}

/-- The name `j` is left of the name `i`, and carries the symbol that `i` stands for as a
value. -/
inductive Ident.Settled (Γ : TypingContext) (i j : Ident) : Prop
  | intro {id : SymbolId} {symbol : Symbol} : i.BoundTo j (id, symbol) →
      Γ.Denotes .value i.name id symbol → symbol.kind ≠ .function →
      (symbol.kind ∈ [.localVariable, .globalVariable] →
        ¬ i.token.position < symbol.declaration.position) →
      Γ.initializing? ≠ some id → Settled Γ i j

/-- The variable in whose initializer a place is, if it is in one, is declared in the scope,
and it is known as the variable that cannot be used. -/
def SymbolTable.Initializes (t : SymbolTable) (scope : ScopeId) (inside? : Option Token)
    (initializing? : Option SymbolId) : Prop :=
  ∀ name ∈ inside?, ∃ id, t.local? scope name.text = some id ∧ initializing? = some id

theorem SymbolTable.Initializes.outside {initializing? : Option SymbolId} :
    t.Initializes scope none initializing? := nofun

/-- The use `v` is left of the use `u`, and its name is settled in the first of the scopes,
which is not the global one. -/
inductive Use.Settled (types : TypeTable) (t : SymbolTable) : Use → Use → Prop
  | intro {scope : ScopeId} {outer : List ScopeId} {inside? : Option Token}
      {initializing? : Option SymbolId} {i j : Ident} : t.Outwards (scope :: outer) →
      scope ≠ .global → t.Initializes scope inside? initializing? →
      i.Settled { types, symbols := t, scope, initializing? } j →
      Settled types t ⟨i, scope :: outer, inside?⟩ ⟨j, scope :: outer, inside?⟩

/-! ## Expressions -/

section
variable {Γ : TypingContext} (h : Γ.symbols.Complete)

/-- The names that are used as values in the expression `e'` are left of those in `e`. -/
def Expr.Settled (Γ : TypingContext) (e e' : Expr) : Prop :=
  List.Forall₂ (Ident.Settled Γ) e.values e'.values

/-- The type that is found for a node says nothing about the names inside of it. -/
theorem Expr.settled_record_iff {e e' : Expr} (hnode : ∀ i, e' ≠ .ident i)
    (found? : Option TypeId) : e.Settled Γ (e'.record found?).1 ↔ e.Settled Γ e' := by
  cases found? with
  | none => rfl
  | some type =>
      cases e' with
      | literal | unary | binary | call => rfl
      | ident i => exact absurd rfl (hnode i)

include h

theorem Ident.value_settles (i : Ident) : (i.bind Γ.symbols Γ.scope .value).Leaves fun j =>
    (j.valueType Γ.symbols Γ.initializing?).Leaves fun found? =>
      i.Settled Γ j ∧ found? = j.type? := by
  refine (i.bind_decides h .value).leaves.mono ?_
  rintro j ⟨⟨id, symbol⟩, hj, hs, hplace⟩
  refine (Ident.valueType_decides hj hs.entry (h.type hs.entry)).leaves.mono ?_
  rintro _ ⟨type, rfl, hk, hi, htype⟩
  refine ⟨.intro hj hs hk hplace hi, ?_⟩
  subst hj
  exact htype.symm

namespace Expr

theorem analyzed_ident_settles (i : Ident) :
    ((ident i).analyzed Γ).Leaves fun x => (ident i).Settled Γ x.1 := by
  unfold analyzed check typeLiterals bindNames
  refine .bind (.bind ((Ident.value_settles h i).mono fun j hj => .pure ?_))
  unfold infer
  refine hj.seq ?_
  rintro found? ⟨hsettled, rfl⟩
  obtain ⟨token, type?, symbol?⟩ := j
  cases type? <;> exact .pure (.cons hsettled .nil)

omit h in
theorem analyzedAll_settles {es : List Expr}
    (ih : ∀ e ∈ es, (e.analyzed Γ).Leaves fun x => e.Settled Γ x.1) :
    (analyzedAll Γ es).Leaves fun xs => List.Forall₂ (Settled Γ) es (xs.map Prod.fst) := by
  induction es with
  | nil => exact fun _ => .nil
  | cons e es ihs =>
      refine Reported.Leaves.congr ?_ (analyzedAll_cons e es)
      refine (ih e (by simp)).seq fun x hx => ?_
      refine (ihs fun e he => ih e (List.mem_cons_of_mem _ he)).seq fun xs hxs => ?_
      exact .pure (.cons hx hxs)

omit h in
theorem settled_valuesAll {es es' : List Expr} (h : List.Forall₂ (Settled Γ) es es') :
    List.Forall₂ (Ident.Settled Γ) (values.valuesAll es) (values.valuesAll es') := by
  induction h with
  | nil => exact .nil
  | cons he _ ih => exact List.rel_append he ih

/-- A silent analysis settles the names that are used as values. -/
theorem analyzed_settles (e : Expr) : (e.analyzed Γ).Leaves fun x => e.Settled Γ x.1 := by
  induction e using tree_induction with
  | literal value token type? => exact fun _ => .nil
  | ident i => exact analyzed_ident_settles h i
  | unary op operand token type? ih =>
      rw [analyzed_unary]
      exact ih.seq fun x hx => .bind fun _ => .pure ((settled_record_iff (by simp) _).mpr hx)
  | binary op left right token type? ihl ihr =>
      by_cases hop : op = .memberAccess
      · subst hop
        rw [analyzed_member]
        exact ihl.seq fun x hx => .bind fun _ => .pure ((settled_record_iff (by simp) _).mpr hx)
      · refine Reported.Leaves.congr ?_ (analyzed_binary hop)
        refine ihl.seq fun x hx => ihr.seq fun y hy => .bind fun _ => .pure ?_
        refine (settled_record_iff (by simp) _).mpr ?_
        unfold Settled values
        rw [if_neg hop, if_neg hop]
        exact List.rel_append hx hy
  | call callee args openParen type? ih =>
      rw [analyzed_call]
      refine .bind fun _ => (analyzedAll_settles ih).seq fun xs hxs => .bind fun _ => .pure ?_
      exact (settled_record_iff (by simp) _).mpr (settled_valuesAll hxs)

end Expr

end

/-! ## Statements -/

theorem Expr.Settled.uses {initializing? : Option SymbolId} (hscopes : t.Outwards (scope :: outer))
    (hroot : scope ≠ .global) (hinside : t.Initializes scope inside? initializing?) {e e' : Expr}
    (h : e.Settled { types, symbols := t, scope, initializing? } e') :
    List.Forall₂ (Use.Settled types t) (e.uses (scope :: outer) inside?)
      (e'.uses (scope :: outer) inside?) := by
  unfold Expr.uses
  rw [List.forall₂_map_left_iff, List.forall₂_map_right_iff]
  exact h.imp fun i j hij => .intro hscopes hroot hinside hij

theorem Expr.settled_usesAll {initializing? : Option SymbolId}
    (hscopes : t.Outwards (scope :: outer))
    (hroot : scope ≠ .global) (hinside : t.Initializes scope inside? initializing?)
    {es es' : List Expr}
    (h : List.Forall₂ (Settled { types, symbols := t, scope, initializing? }) es es') :
    List.Forall₂ (Use.Settled types t) (es.flatMap (uses (scope :: outer) inside?))
      (es'.flatMap (uses (scope :: outer) inside?)) := by
  induction h with
  | nil => exact .nil
  | cons he _ ih => exact List.rel_append (he.uses hscopes hroot hinside) ih

namespace Stmt

section
variable (h : t.Complete) (hscopes : t.Outwards (scope :: outer)) (hroot : scope ≠ .global)
include h hscopes hroot

theorem check_assign_settles (target : Ident) (value : Expr) :
    ((assign target (value.typeLiterals types)).check types t scope).Leaves fun s'' =>
      List.Forall₂ (Use.Settled types t) ((assign target value).uses t (scope :: outer))
        (s''.uses t (scope :: outer)) := by
  have htarget := Ident.value_settles (Γ := { types, symbols := t, scope }) h target
  have hvalue := (value.analyzed_settles (Γ := { types, symbols := t, scope }) h).of_bind
  unfold check
  refine htarget.seq fun target' htarget' => hvalue.seq fun value' hvalue' => ?_
  refine htarget'.seq fun expected? hexpected => hvalue'.seq ?_
  rintro ⟨value'', received?⟩ hreceived
  refine .bind fun _ => .pure (.cons (.intro hscopes hroot .outside hexpected.1) ?_)
  exact hreceived.uses hscopes hroot .outside

theorem check_returnValue_settles (hreturns : t.Returns result scope) (value? : Option Expr)
    (token : Token) :
    ((returnValue (value?.map (·.typeLiterals types)) token).check types t scope).Leaves fun s'' =>
      List.Forall₂ (Use.Settled types t) ((returnValue value? token).uses t (scope :: outer))
        (s''.uses t (scope :: outer)) := by
  unfold check
  cases value? with
  | none =>
      refine .bind (.pure ((Checking.nothing_returned_leaves hreturns token).seq ?_))
      rintro _ rfl
      exact .pure .nil
  | some value =>
      have hvalue := (value.analyzed_settles (Γ := { types, symbols := t, scope }) h).of_bind
      refine .bind (.bind (hvalue.mono fun value' hvalue' => .pure ?_))
      refine (Checking.returned_leaves hreturns hvalue' token).seq ?_
      rintro _ ⟨value'', rfl, hvalue''⟩
      exact .pure (Expr.settled_usesAll hscopes hroot .outside (.cons hvalue'' .nil))

theorem check_varDecl_settles (type : TypeName) (resolved : TypeId) {name : Token} {id : SymbolId}
    (hid : t.local? scope name.text = some id) (initializer? : Option Expr) :
    ((varDecl { type with resolved? := some resolved } name
      (initializer?.map (·.typeLiterals types)) (some id)).check types t scope).Leaves fun s'' =>
      List.Forall₂ (Use.Settled types t)
        ((varDecl type name initializer? none).uses t (scope :: outer))
        (s''.uses t (scope :: outer)) := by
  unfold check
  cases initializer? with
  | none => exact .pure .nil
  | some initializer =>
      have hinitial := (initializer.analyzed_settles
        (Γ := { types, symbols := t, scope, initializing? := some id }) h).of_bind
      refine hinitial.seq fun initializer' hinitial' => hinitial'.seq ?_
      rintro ⟨initializer'', received?⟩ hreceived
      refine .bind fun _ => .pure (Expr.settled_usesAll hscopes hroot ?_ (.cons hreceived .nil))
      rintro _ ⟨⟩
      exact ⟨id, hid, rfl⟩

theorem check_call_settles (callee : Ident) (args : List Expr) (openParen : Token) :
    ((call callee (Expr.typeLiterals.typeAll types args) openParen).check types t scope).Leaves
      fun s'' => List.Forall₂ (Use.Settled types t)
        ((call callee args openParen).uses t (scope :: outer)) (s''.uses t (scope :: outer)) := by
  have hanalyzed : ∀ e ∈ args, (e.analyzed { types, symbols := t, scope }).Leaves fun x =>
      e.Settled { types, symbols := t, scope } x.1 := fun e _ => e.analyzed_settles h
  have hargs := (Expr.analyzedAll_settles hanalyzed).of_bind
  unfold check
  refine .bind fun _ => hargs.seq fun args' hargs' => hargs'.seq fun xs hxs => .bind fun _ => ?_
  exact .pure (Expr.settled_usesAll hscopes hroot .outside hxs)

omit h hscopes hroot in
theorem checkAll_settles {ss ss' : List Stmt}
    (ih : ∀ s ∈ ss, ∀ {s'}, s.Declared types t result scope s' →
      (s'.check types t scope).Leaves fun s'' => List.Forall₂ (Use.Settled types t)
        (s.uses t (scope :: outer)) (s''.uses t (scope :: outer)))
    (hs : AllDeclared types t result scope ss ss') :
    (check.checkAll types t scope ss').Leaves fun ss'' => List.Forall₂ (Use.Settled types t)
      (uses.usesAll t (scope :: outer) ss) (uses.usesAll t (scope :: outer) ss'') := by
  induction ss generalizing ss' with
  | nil =>
      cases hs
      exact .pure .nil
  | cons s ss ihs =>
      cases hs with
      | cons hs hss =>
          unfold check.checkAll
          refine (ih s (by simp) hs).seq fun s'' hs'' => ?_
          refine (ihs (fun s' hs' => ih s' (by simp [hs'])) hss).seq fun ss'' hss'' => ?_
          exact .pure (List.rel_append hs'' hss'')

theorem check_settles (hnested : t.Nested) {s s' : Stmt} (hreturns : t.Returns result scope)
    (hs : s.Declared types t result scope s') :
    (s'.check types t scope).Leaves fun s'' => List.Forall₂ (Use.Settled types t)
      (s.uses t (scope :: outer)) (s''.uses t (scope :: outer)) := by
  induction s using tree_induction generalizing scope outer s' with
  | empty | breakLoop =>
      cases hs
      exact .pure .nil
  | whileLoop condition body token ih =>
      cases hs with
      | whileLoop hbody =>
          have hcondition :=
            (condition.analyzed_settles (Γ := { types, symbols := t, scope }) h).of_bind
          unfold check
          refine hcondition.seq fun e he =>
            (ih hscopes hroot hreturns hbody).seq fun body' hbody' => ?_
          refine (Checking.condition_leaves he _ token).seq fun e' he' => .pure ?_
          exact List.rel_append (he'.uses hscopes hroot .outside) hbody'
  | ifThen condition thenBranch token ih =>
      cases hs with
      | ifThen hthen =>
          have hcondition :=
            (condition.analyzed_settles (Γ := { types, symbols := t, scope }) h).of_bind
          unfold check
          refine hcondition.seq fun e he =>
            (ih hscopes hroot hreturns hthen).seq fun then' hthen' => ?_
          refine (Checking.condition_leaves he _ token).seq fun e' he' => .pure ?_
          exact List.rel_append (he'.uses hscopes hroot .outside) hthen'
  | ifThenElse condition thenBranch elseBranch token ihthen ihelse =>
      cases hs with
      | ifThenElse hthen helse =>
          have hcondition :=
            (condition.analyzed_settles (Γ := { types, symbols := t, scope }) h).of_bind
          unfold check
          refine hcondition.seq fun e he => ?_
          refine (ihthen hscopes hroot hreturns hthen).seq fun then' hthen' => ?_
          refine (ihelse hscopes hroot hreturns helse).seq fun else' helse' => ?_
          refine (Checking.condition_leaves he _ token).seq fun e' he' => .pure ?_
          exact List.rel_append (he'.uses hscopes hroot .outside) (List.rel_append hthen' helse')
  | block statements openBrace ih =>
      cases hs with
      | block hinner hreturns' hall =>
          have hinside : t.Outwards (_ :: scope :: outer) :=
            .inside (hnested.child hinner).1 hscopes
          unfold check
          rw [hinner]
          refine (checkAll_settles (fun s hs _ =>
            ih s hs hinside (hnested.inner_ne_global hinner) hreturns') hall).seq
            fun ss hss => .pure ?_
          unfold uses
          rwa [SymbolTable.within_of_subScope? hinner]
  | assign target value =>
      cases hs
      exact check_assign_settles h hscopes hroot target value
  | returnValue value? token =>
      cases hs
      exact check_returnValue_settles h hscopes hroot hreturns value? token
  | varDecl type name initializer? symbol? =>
      cases hs with
      | varDecl _ hid => exact check_varDecl_settles h hscopes hroot type _ hid initializer?
  | call callee args openParen =>
      cases hs
      exact check_call_settles h hscopes hroot callee args openParen

end

end Stmt

/-! ## Programs -/

section
variable (h : t.Complete) (hnested : t.Nested)
include h hnested

theorem FnDef.check_settles {f f' : FnDef} (hf : f.Declared types t f') :
    (f'.check types t).Leaves fun f'' => List.Forall₂ (Use.Settled types t)
      ((Global.function f).uses t) ((Global.function f'').uses t) := by
  cases hf with
  | @intro _ outer inner _ _ _ htype houter hinner hreturns hparams hbody =>
      have hscopes : t.Outwards [inner, outer, .global] :=
        .inside (hnested.child hinner).1 (.inside (hnested.child houter).1 .root)
      unfold check
      simp only [Option.bind_some, houter, hinner]
      have hstatements := Stmt.checkAll_settles (fun s _ _ =>
        Stmt.check_settles h hscopes (hnested.inner_ne_global hinner) hnested hreturns) hbody
      refine hstatements.seq fun ss hss => .pure ?_
      have huses (body : List Stmt) : Stmt.uses t (t.within [.global] f.name.text)
          (.block body f.openBrace) = Stmt.uses.usesAll t [inner, outer, .global] body := by
        unfold Stmt.uses
        rw [SymbolTable.within_of_subScope? houter, SymbolTable.within_of_subScope? hinner]
      rw [← huses, ← huses] at hss
      exact hss

theorem Global.check_settles {g g' : Global} (hg : g.Declared types t g') :
    (g'.check types t).Leaves fun g'' =>
      List.Forall₂ (Use.Settled types t) (g.uses t) (g''.uses t) := by
  cases hg with
  | function hf =>
      unfold check
      dsimp only
      rw [map_eq_pure_bind]
      exact (FnDef.check_settles h hnested hf).seq fun f'' hf'' => .pure hf''
  | var => exact .pure .nil

theorem Global.checkAll_settles {gs gs' : List Global}
    (hgs : List.Forall₂ (Global.Declared types t) gs gs') :
    (checkAll types t gs').Leaves fun gs'' => List.Forall₂ (Use.Settled types t)
      (gs.flatMap (uses t)) (gs''.flatMap (uses t)) := by
  induction hgs with
  | nil => exact .pure .nil
  | cons hg _ ih =>
      unfold checkAll
      refine (check_settles h hnested hg).seq fun g hg => ih.seq fun gs hgs => .pure ?_
      exact List.rel_append hg hgs

theorem Program.check_settles {p p' : Program}
    (hp : List.Forall₂ (Global.Declared types t) p.globals p'.globals) :
    (p'.check types t).Leaves fun p'' =>
      List.Forall₂ (Use.Settled types t) (p.uses t) (p''.uses t) :=
  (Global.checkAll_settles h hnested hp).seq fun _ hgs => .pure hgs

end

end ScriptFront
