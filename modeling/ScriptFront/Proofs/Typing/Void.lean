import ScriptFront.Proofs.Program.Names
import ScriptFront.Proofs.Tree.Names
import ScriptFront.Proofs.Typing.Resolved
import ScriptFront.Proofs.Typing.Stored

/-!
# Values of type `void`

A call of a function without a result has the type `void`, which has no values. Behind a
silent second analysis such a call is hardly ever a part of anything: two of them can be
compared with each other, and one can be added to a string.
-/
namespace ScriptFront

variable {types : TypeTable} {symbols : SymbolTable} {scope : ScopeId} {result : TypeId}

/-! ## Where values are taken -/

/-- A place that takes the value of an expression. Beside an operand stands the other one;
an array and an index are operands, too. -/
inductive ValuePlace where
  | operand (op : UnaryOp)
  | left (op : BinaryOp) (right : Expr)
  | right (op : BinaryOp) (left : Expr)
  | argument (callee : Ident)
  | condition
  | initial (name : Token)
  | assigned (target : Ident)

/-- An expression whose value is taken, and where. -/
structure ValueUse where
  place : ValuePlace
  value : Expr

/-- The values that are taken in an expression. -/
def Expr.valueUses : Expr → List ValueUse
  | literal _ _ _ | ident _ => []
  | unary op operand _ _ => ⟨.operand op, operand⟩ :: operand.valueUses
  | binary op left right _ _ =>
      ⟨.left op right, left⟩ :: ⟨.right op left, right⟩ :: (left.valueUses ++ right.valueUses)
  | call callee args _ _ => valueUsesAll callee args
where
  /-- The values that are taken by a call and in its arguments. -/
  valueUsesAll (callee : Ident) : List Expr → List ValueUse
    | [] => []
    | e :: es => ⟨.argument callee, e⟩ :: (e.valueUses ++ valueUsesAll callee es)

/-- The value of the expression, taken at a place, and the values that are taken in it. -/
def Expr.valueUsesAt (place : ValuePlace) (e : Expr) : List ValueUse := ⟨place, e⟩ :: e.valueUses

def Stmt.valueUses : Stmt → List ValueUse
  | empty _ | breakLoop _ => []
  | whileLoop condition body _ => condition.valueUsesAt .condition ++ body.valueUses
  | ifThen condition thenBranch _ => condition.valueUsesAt .condition ++ thenBranch.valueUses
  | ifThenElse condition thenBranch elseBranch _ =>
      condition.valueUsesAt .condition ++ (thenBranch.valueUses ++ elseBranch.valueUses)
  | block statements _ => valueUsesAll statements
  | assign target value => value.valueUsesAt (.assigned target)
  | returnValue value? _ => value?.toList.flatMap Expr.valueUses
  | varDecl _ name initializer? _ =>
      initializer?.toList.flatMap (Expr.valueUsesAt (.initial name))
  | call callee args _ => Expr.valueUses.valueUsesAll callee args
where
  valueUsesAll : List Stmt → List ValueUse
    | [] => []
    | s :: ss => s.valueUses ++ valueUsesAll ss

def Global.valueUses : Global → List ValueUse
  | function f => Stmt.valueUses.valueUsesAll f.body
  | var _ => []

def Program.valueUses (p : Program) : List ValueUse := p.globals.flatMap Global.valueUses

/-! ## Where `void` is possible -/

/-- Beside an operand of this type, the operator takes one of type `void`: it compares the
two, or it adds to a string. -/
def BinaryOp.TakesVoid (types : TypeTable) (op : BinaryOp) (other? : Option TypeId) : Prop :=
  op ∈ [.equal, .unequal] ∧ other? = types.get? "void" ∨ op = .add ∧ other? = types.get? "string"

/-- A value of type `void` can stand at the place. -/
def ValuePlace.TakesVoid (types : TypeTable) : ValuePlace → Prop
  | left op other | right op other => op.TakesVoid types other.type?
  | _ => False

/-- The value has a type, and that is not `void` but where it can be. -/
def ValueUse.Sound (types : TypeTable) (u : ValueUse) : Prop :=
  ∃ t, u.value.type? = some t ∧ (types.get? "void" = some t → u.place.TakesVoid types)

namespace TypeTable

theorem get?_injective {name name' : String} {t : TypeId} (h : types.get? name = some t)
    (h' : types.get? name' = some t) : name = name' := by
  have hinfo : ∀ {n}, types.get? n = some t →
      ∃ info, types.info? t = some info ∧ info.name = n := by
    intro n hn
    obtain ⟨i, hi, rfl⟩ := Option.map_eq_some_iff.mp hn
    obtain ⟨hlt, hname, -⟩ := List.findIdx?_eq_some_iff_getElem.mp hi
    exact ⟨types.types[i], List.getElem?_eq_getElem hlt, by simpa using hname⟩
  obtain ⟨info, hi, rfl⟩ := hinfo h
  obtain ⟨info', hi', rfl⟩ := hinfo h'
  rw [Option.some.inj (hi.symm.trans hi')]

/-- The type with the name `void` has no values and no elements. -/
structure VoidEmpty (types : TypeTable) : Prop where
  value {t : TypeId} : types.get? "void" = some t → ¬ types.HoldsValues t
  element {t : TypeId} : types.get? "void" = some t → types.element? t = none

theorem voidEmpty_primitives : primitives.VoidEmpty := by
  have hvoid : primitives.get? "void" = some ⟨0⟩ := by decide
  constructor
  · intro t ht
    obtain rfl := Option.some.inj (hvoid.symm.trans ht)
    decide
  · intro t ht
    obtain rfl := Option.some.inj (hvoid.symm.trans ht)
    decide

end TypeTable

/-! ## Expressions -/

theorem ValueUse.Sound.named {place : ValuePlace} {e : Expr} {name : String} {t : TypeId}
    (ht : e.type? = some t) (hname : types.get? name = some t) (hne : name ≠ "void") :
    (⟨place, e⟩ : ValueUse).Sound types :=
  ⟨t, ht, fun hvoid => absurd (TypeTable.get?_injective hname hvoid) hne⟩

theorem ValueUse.Sound.ofValues (hempty : types.VoidEmpty) {place : ValuePlace} {e : Expr}
    {t : TypeId} (ht : e.type? = some t) (hvalue : types.HoldsValues t) :
    (⟨place, e⟩ : ValueUse).Sound types :=
  ⟨t, ht, fun hvoid => absurd hvalue (hempty.value hvoid)⟩

theorem UnaryOp.Takes.sound {op : UnaryOp} {e : Expr} {t : TypeId} (ht : e.type? = some t)
    (h : op.Takes (.rules types symbols) t) :
    (⟨.operand op, e⟩ : ValueUse).Sound types := by
  cases h with
  | neg hnumeric =>
      rcases hnumeric with hint | hfloat
      · exact .named ht hint (by decide)
      · exact .named ht hfloat (by decide)
  | not hbool => exact .named ht hbool (by decide)

theorem TypingContext.Numeric.ne_void {t : TypeId}
    (h : (TypingContext.rules types symbols).Numeric t) : types.get? "void" ≠ some t := by
  intro hvoid
  rcases h with hint | hfloat
  · exact absurd (TypeTable.get?_injective hint hvoid) (by decide)
  · exact absurd (TypeTable.get?_injective hfloat hvoid) (by decide)

/-- Of two operands, none is of type `void` but where the operator takes it. -/
theorem BinaryOp.Yields.sound (hempty : types.VoidEmpty) {op : BinaryOp} {left right : Expr}
    {t u v : TypeId} (ht : left.type? = some t) (hu : right.type? = some u)
    (h : op.Yields (.rules types symbols) t u v) :
    (⟨.left op right, left⟩ : ValueUse).Sound types ∧
      (⟨.right op left, right⟩ : ValueUse).Sound types := by
  cases h with
  | equality hop _ =>
      exact ⟨⟨t, ht, fun hvoid => .inl ⟨hop, hu.trans hvoid.symm⟩⟩,
        ⟨t, hu, fun hvoid => .inl ⟨hop, ht.trans hvoid.symm⟩⟩⟩
  | ordering _ hnumeric _ | arithmetic _ hnumeric =>
      exact ⟨⟨t, ht, fun hvoid => absurd hvoid hnumeric.ne_void⟩,
        ⟨t, hu, fun hvoid => absurd hvoid hnumeric.ne_void⟩⟩
  | connective _ hbool =>
      exact ⟨.named ht hbool (by decide), .named hu hbool (by decide)⟩
  | remainder hint => exact ⟨.named ht hint (by decide), .named hu hint (by decide)⟩
  | concatenation hstring hone =>
      -- The operand that is no string has a string beside it.
      rcases hone with rfl | rfl
      · exact ⟨.named ht hstring (by decide),
          ⟨u, hu, fun _ => .inr ⟨rfl, ht.trans hstring.symm⟩⟩⟩
      · exact ⟨⟨t, ht, fun _ => .inr ⟨rfl, hu.trans hstring.symm⟩⟩,
          .named hu hstring (by decide)⟩
  | subscript harray hint =>
      refine ⟨⟨t, ht, fun hvoid => ?_⟩, .named hu hint (by decide)⟩
      cases (hempty.element hvoid).symm.trans harray

namespace Expr

theorem forall_valueUsesAll {callee : Ident} {args : List Expr} {P : ValueUse → Prop} :
    (∀ u ∈ valueUses.valueUsesAll callee args, P u) ↔
      ∀ e ∈ args, P ⟨.argument callee, e⟩ ∧ ∀ u ∈ e.valueUses, P u := by
  induction args with
  | nil => simp [valueUses.valueUsesAll]
  | cons e es ih =>
      rw [valueUses.valueUsesAll, List.forall_mem_cons, List.forall_mem_append, ih,
        List.forall_mem_cons, and_assoc]

/-- The values that are taken in the expression are sound. -/
def Sound (types : TypeTable) (e : Expr) : Prop := ∀ u ∈ e.valueUses, u.Sound types

section
variable (h : symbols.Complete) (hempty : types.VoidEmpty) (hstores : symbols.Stores types)
include h hempty hstores

theorem sound_argument {callee : Ident} {args : List Expr} {function : Symbol} {id : SymbolId}
    (hentry : symbols.symbol? id = some function)
    (htypes : args.map type? = function.params.map Prod.snd) :
    ∀ e ∈ args, (⟨.argument callee, e⟩ : ValueUse).Sound types := by
  intro e he
  obtain ⟨ts, hts⟩ := h.params hentry
  have hmem : e.type? ∈ function.params.map Prod.snd := htypes ▸ List.mem_map_of_mem he
  obtain ⟨entry, hparam, heq⟩ := List.mem_map.mp hmem
  rw [hts] at hmem
  obtain ⟨t, -, ht⟩ := List.mem_map.mp hmem
  have hvalue := (hstores id function hentry).params entry hparam t (heq.trans ht.symm)
  exact .ofValues hempty ht.symm hvalue

/-- In a resolved expression, values are taken of operands that can be taken and of
arguments that fit. -/
theorem Resolved.sound {e : Expr} (he : e.Resolved types symbols) : e.Sound types := by
  induction e using tree_induction with
  | literal | ident => exact List.forall_mem_nil _
  | unary op operand token type? ih =>
      cases he with
      | unary hoperand ht hop => exact List.forall_mem_cons.mpr ⟨hop.sound ht, ih hoperand⟩
  | binary op left right token type? ihl ihr =>
      cases he with
      | binary hl hr ht hu hop =>
          obtain ⟨hleft, hright⟩ := hop.sound hempty ht hu
          unfold Sound valueUses
          rw [List.forall_mem_cons, List.forall_mem_cons, List.forall_mem_append]
          exact ⟨hleft, hright, ihl hl, ihr hr⟩
  | call callee args openParen type? ih =>
      cases he with
      | call hstands hk hargs htypes ht =>
          obtain ⟨-, hentry, -, -, -⟩ := hstands
          exact forall_valueUsesAll.mpr fun e he =>
            ⟨sound_argument h hempty hstores hentry htypes e he, ih e he (hargs e he)⟩

end

theorem sound_valueUsesAt {place : ValuePlace} {e : Expr} (he : e.Sound types)
    (hplace : (⟨place, e⟩ : ValueUse).Sound types) :
    ∀ u ∈ e.valueUsesAt place, u.Sound types :=
  List.forall_mem_cons.mpr ⟨hplace, he⟩

end Expr

/-! ## Statements -/

theorem Expr.bound_typed {Γ : TypingContext} (h : Γ.symbols.Complete) (hl : Γ.types.HasLiterals)
    (e : Expr) : (e.bound Γ).Leaves fun e' =>
      (e'.infer Γ.types Γ.symbols Γ.initializing?).Leaves (Typed.Resolved Γ.types Γ.symbols) :=
  (e.analyzed_leaves h hl).of_bind

/-- What is assigned silently has the type that is expected. -/
theorem Checking.assignable_leaves {t u : TypeId} {token : Token} :
    (assignable types (some t) (some u) token).Leaves fun _ => t = u := by
  unfold assignable
  dsimp only
  split_ifs with hne
  · rw [← bind_pure (Reported.report _ token)]
    exact .report
  · exact .pure (not_not.mp hne)

namespace Stmt

def Sound (types : TypeTable) (s : Stmt) : Prop := ∀ u ∈ s.valueUses, u.Sound types

theorem sound_valueUsesAll {ss : List Stmt} :
    (∀ u ∈ valueUses.valueUsesAll ss, u.Sound types) ↔ ∀ s ∈ ss, s.Sound types := by
  induction ss with
  | nil => simp [valueUses.valueUsesAll]
  | cons s ss ih =>
      rw [valueUses.valueUsesAll, List.forall_mem_append, ih, List.forall_mem_cons]
      rfl

theorem checkAll_sound {ss ss' : List Stmt} (hstored : ∀ s ∈ ss', s.Stored types)
    (ih : ∀ s ∈ ss, ∀ {s'}, s.Declared types symbols result scope s' → s'.Stored types →
      (s'.check types symbols scope).Leaves (Sound types))
    (hs : AllDeclared types symbols result scope ss ss') :
    (check.checkAll types symbols scope ss').Leaves fun ss'' => ∀ s ∈ ss'', s.Sound types := by
  induction ss generalizing ss' with
  | nil =>
      cases hs
      exact .pure (List.forall_mem_nil _)
  | cons s ss ihs =>
      cases hs with
      | cons hs hss =>
          obtain ⟨hfirst, hrest⟩ := List.forall_mem_cons.mp hstored
          unfold check.checkAll
          refine (ih s (by simp) hs hfirst).seq fun s'' hs'' => ?_
          refine (ihs hrest (fun s' hs' => ih s' (by simp [hs'])) hss).seq fun ss'' hss'' => ?_
          exact .pure (List.forall_mem_cons.mpr ⟨hs'', hss''⟩)

section
variable (h : symbols.Complete) (hl : types.HasLiterals) (hempty : types.VoidEmpty)
  (hstores : symbols.Stores types)
include h hempty hstores

theorem condition_sound {e : Expr}
    (he : (e.infer types symbols none).Leaves (Typed.Resolved types symbols))
    (statement : String) (token : Token) :
    (Checking.condition types symbols statement token e).Leaves fun e' =>
      ∀ u ∈ e'.valueUsesAt .condition, u.Sound types := by
  unfold Checking.condition
  refine he.seq ?_
  rintro ⟨e', found?⟩ he'
  obtain ⟨t, rfl, ht⟩ := he'.exists_type
  dsimp only
  split_ifs with hbool
  · have hname : types.get? "bool" = some t := by simpa [TypeTable.isNamed] using hbool
    exact .pure (Expr.sound_valueUsesAt (he'.1.sound h hempty hstores)
      (.named ht hname (by decide)))
  · exact .report

include hl

theorem check_assign_sound {target : Ident} (hname : target.name ≠ Symbol.returnValueName)
    (value : Expr) :
    ((assign target (value.typeLiterals types)).check types symbols scope).Leaves
      (Sound types) := by
  have htarget := Ident.value_leaves (Γ := { types, symbols, scope }) h target
  have hvalue := Expr.bound_typed (Γ := { types, symbols, scope }) h hl value
  have htoken : (target.bind symbols scope .value).Leaves fun i => i.name = target.name :=
    fun _ => congrArg Token.text (target.token_bind .value)
  unfold check
  refine .bind fun htargets => hvalue.seq fun value' hvalue' => ?_
  have hsame := htoken htargets
  refine (htarget htargets).seq fun expected? hexpected => hvalue'.seq ?_
  obtain ⟨⟨symbol, ⟨hid, hentry, hsymbol, htype, hfound⟩, hk⟩, rfl⟩ := hexpected
  rintro ⟨value'', received?⟩ hreceived
  obtain ⟨u, rfl, hu⟩ := hreceived.exists_type
  rw [hfound]
  refine Checking.assignable_leaves.seq ?_
  rintro - rfl
  have hkind : symbol.kind ∉ [SymbolKind.function, .returnValue] := by
    intro hmem
    simp only [List.mem_cons, List.not_mem_nil, or_false] at hmem
    rcases hmem with hk' | hk'
    · rw [hk'] at hk
      cases hk
    · exact hname (hsame ▸ hsymbol ▸ (hstores _ symbol hentry).result hk')
  have hholds := (hstores _ symbol hentry).type hkind _ htype
  exact .pure (Expr.sound_valueUsesAt (hreceived.1.sound h hempty hstores)
    (.ofValues hempty hu hholds))

theorem check_returnValue_sound (hreturns : symbols.Returns result scope)
    (value? : Option Expr) (token : Token) :
    ((returnValue (value?.map (·.typeLiterals types)) token).check types symbols scope).Leaves
      (Sound types) := by
  unfold check
  cases value? with
  | none =>
      refine .bind (.pure ((Checking.nothing_returned_leaves hreturns token).seq ?_))
      rintro _ rfl
      exact .pure (List.forall_mem_nil _)
  | some value =>
      have hvalue := Expr.bound_leaves (Γ := { types, symbols, scope }) h hl value
      refine .bind (.bind (hvalue.mono fun value' hvalue' => .pure ?_))
      refine (Checking.returned_leaves hreturns hvalue' token).seq ?_
      rintro _ ⟨value'', rfl, hvalue''⟩
      refine .pure ?_
      unfold Sound valueUses
      rw [Option.toList_some, List.flatMap_singleton]
      exact hvalue''.sound h hempty hstores

theorem check_varDecl_sound {type : TypeName} (htype : type.Stored types) (name : Token)
    (initializer? : Option Expr) (id : SymbolId) :
    ((varDecl type name (initializer?.map (·.typeLiterals types)) (some id)).check types symbols
      scope).Leaves (Sound types) := by
  obtain ⟨resolved, hresolved, hholds⟩ := htype
  unfold check
  cases initializer? with
  | none => exact .pure (List.forall_mem_nil _)
  | some initializer =>
      have hinitial := Expr.bound_typed
        (Γ := { types, symbols, scope, initializing? := some id }) h hl initializer
      refine hinitial.seq fun initializer' hinitial' => ?_
      rw [hresolved]
      refine hinitial'.seq ?_
      rintro ⟨initializer'', received?⟩ hreceived
      obtain ⟨u, rfl, hu⟩ := hreceived.exists_type
      refine Checking.assignable_leaves.seq ?_
      rintro - rfl
      refine .pure ?_
      unfold Sound valueUses
      rw [Option.toList_some, List.flatMap_singleton]
      exact Expr.sound_valueUsesAt (hreceived.1.sound h hempty hstores)
        (.ofValues hempty hu hholds)

theorem check_call_sound (callee : Ident) (args : List Expr) (openParen : Token) :
    ((call callee (Expr.typeLiterals.typeAll types args) openParen).check types symbols
      scope).Leaves (Sound types) := by
  have hcallee := Expr.call_leaves (Γ := { types, symbols, scope }) h callee
  have hanalyzed : ∀ e ∈ args, (e.analyzed { types, symbols, scope }).Leaves
      (Typed.Resolved types symbols) := fun e _ => e.analyzed_leaves h hl
  have hargs := (Expr.analyzedAll_leaves hanalyzed).of_bind
  unfold check
  refine hcallee.seq fun callee' hcallee' => hargs.seq fun args' hargs' => ?_
  refine hargs'.seq fun xs hxs => (hcallee' xs hxs).seq ?_
  rintro _ ⟨function, t, hstands, -, htypes, -, -⟩
  obtain ⟨-, hentry, -, -, -⟩ := hstands
  refine .pure (Expr.forall_valueUsesAll.mpr fun e he => ?_)
  obtain ⟨x, hx, rfl⟩ := List.mem_map.mp he
  exact ⟨Expr.sound_argument h hempty hstores hentry htypes _ he,
    (hxs x hx).1.sound h hempty hstores⟩

/-- A silent analysis of a statement takes sound values only. -/
theorem check_sound {s s' : Stmt} (hreturns : symbols.Returns result scope)
    (hs : s.Declared types symbols result scope s') (hstored : s'.Stored types)
    (hnames : ∀ n ∈ s.names, n.text ≠ Symbol.returnValueName) :
    (s'.check types symbols scope).Leaves (Sound types) := by
  induction s using tree_induction generalizing scope s' with
  | empty token =>
      cases hs
      exact .pure (List.forall_mem_nil _)
  | breakLoop token =>
      cases hs
      exact .pure (List.forall_mem_nil _)
  | whileLoop condition body token ih =>
      cases hs with
      | whileLoop hbody =>
          have hcondition := Expr.bound_typed (Γ := { types, symbols, scope }) h hl condition
          obtain ⟨-, hnames⟩ := List.forall_mem_append.mp hnames
          unfold check
          refine hcondition.seq fun e he => ?_
          refine (ih hreturns hbody hstored hnames).seq fun body' hbody' => ?_
          exact (condition_sound h hempty hstores he _ token).seq fun e' he' =>
            .pure (List.forall_mem_append.mpr ⟨he', hbody'⟩)
  | ifThen condition thenBranch token ih =>
      cases hs with
      | ifThen hthen =>
          have hcondition := Expr.bound_typed (Γ := { types, symbols, scope }) h hl condition
          obtain ⟨-, hnames⟩ := List.forall_mem_append.mp hnames
          unfold check
          refine hcondition.seq fun e he => ?_
          refine (ih hreturns hthen hstored hnames).seq fun then' hthen' => ?_
          exact (condition_sound h hempty hstores he _ token).seq fun e' he' =>
            .pure (List.forall_mem_append.mpr ⟨he', hthen'⟩)
  | ifThenElse condition thenBranch elseBranch token ihthen ihelse =>
      cases hs with
      | ifThenElse hthen helse =>
          have hcondition := Expr.bound_typed (Γ := { types, symbols, scope }) h hl condition
          obtain ⟨-, hnames⟩ := List.forall_mem_append.mp hnames
          obtain ⟨hnames, hnames'⟩ := List.forall_mem_append.mp hnames
          obtain ⟨hstored, hstored'⟩ := stored_ifThenElse.mp hstored
          unfold check
          refine hcondition.seq fun e he => ?_
          refine (ihthen hreturns hthen hstored hnames).seq fun then' hthen' => ?_
          refine (ihelse hreturns helse hstored' hnames').seq fun else' helse' => ?_
          refine (condition_sound h hempty hstores he _ token).seq fun e' he' => ?_
          exact .pure (List.forall_mem_append.mpr
            ⟨he', List.forall_mem_append.mpr ⟨hthen', helse'⟩⟩)
  | block statements openBrace ih =>
      cases hs with
      | block hinner hreturns' hall =>
          have hinside : ∀ s ∈ statements, ∀ n ∈ s.names, n.text ≠ Symbol.returnValueName :=
            fun s hs n hn => hnames n (mem_namesAll.mpr ⟨s, hs, hn⟩)
          unfold check
          rw [hinner]
          refine (checkAll_sound (stored_block.mp hstored) (fun s hs _ hdecl hstored =>
            ih s hs hreturns' hdecl hstored (hinside s hs)) hall).seq fun ss hss => ?_
          exact .pure (sound_valueUsesAll.mpr hss)
  | assign target value =>
      cases hs
      exact check_assign_sound h hl hempty hstores (hnames _ List.mem_cons_self) value
  | returnValue value? token =>
      cases hs
      exact check_returnValue_sound h hl hempty hstores hreturns value? token
  | varDecl type name initializer? symbol? =>
      cases hs with
      | varDecl htype hid =>
          exact check_varDecl_sound h hl hempty hstores (hstored _ List.mem_cons_self) name
            initializer? _
  | call callee args openParen =>
      cases hs
      exact check_call_sound h hl hempty hstores callee args openParen

end

end Stmt

end ScriptFront
