import ScriptFront.Proofs.Diagnostic.OneLine
import ScriptFront.Proofs.Tree.Names

/-!
# The faults of the analyses

The first analysis reports what cannot be declared, and each `break` that is in no loop.
All that it tells are names of the program. In particular the result of a function can
always be declared, because the scope of the function is new. The second analysis reports
names and types, in messages of one line. Neither depends on what is in the symbol table
when it begins.
-/
namespace ScriptFront

variable {types : TypeTable} {t : SymbolTable} {scope : ScopeId} {loops : ℕ}

/-! ## The first analysis -/

/-- The rest is run behind what the first step leaves. -/
theorem Declaring.Raises.seq {α β : Type} {stage : Stage} {N : String → Prop} {m : Declaring α}
    {f : α → Declaring β} {Q : α → SymbolTable → Prop} (hm : m.Raises stage N t)
    (h : m.Ends t Q) (hf : ∀ a u, Q a u → (f a).Raises stage N u) :
    (m >>= f).Raises stage N t := by
  have hrest := hf _ _ h.post
  change (m t >>= fun r => f r.1 r.2).Raises stage N
  exact Reported.Raises.bind hm hrest

section
variable {N : String → Prop} (hN : ∀ s, N s → N (s ++ "[]"))
include hN

theorem TypeName.fullName_of {written : TypeName} (h : N written.token.text) :
    N written.fullName := by
  unfold fullName
  split_ifs
  · exact hN _ h
  · exact h

namespace TypeTable

variable {written : TypeName} {d : Diagnostic}

theorem fits_of_resolve (hw : N written.token.text) (h : types.resolve written = .error d) :
    d.fault.Fits .declaring N := by
  unfold resolve at h
  split at h
  · cases h
  · cases h
    exact .single rfl rfl (TypeName.fullName_of hN hw)

theorem fits_of_resolveStorage (hw : N written.token.text)
    (h : types.resolveStorage written = .error d) : d.fault.Fits .declaring N := by
  unfold resolveStorage at h
  cases hr : types.resolve written with
  | error e =>
      rw [hr] at h
      cases h
      exact fits_of_resolve hN hw hr
  | ok type =>
      rw [hr] at h
      simp only [bind, Except.bind, pure, Except.pure, throw] at h
      split_ifs at h
      cases h
      exact .single rfl rfl (TypeName.fullName_of hN hw)

end TypeTable

namespace Declaring

omit hN in
theorem newSymbol?_bind_raises {kind : SymbolKind} {name : Token} {type? : Option TypeId}
    {f : Option SymbolId → Declaring α} (h : ∀ id? u, (f id?).Raises .declaring N u) :
    (newSymbol? scope kind name type? >>= f).Raises .declaring N t :=
  .add?_bind (fun _ _ _ => h _ _) fun _ => h _ _

theorem newVariable?_raises {kind : SymbolKind} {type : TypeName} {name : Token}
    (htype : N type.token.text) (hname : N name.text) :
    (newVariable? types scope kind type name).Raises .declaring N t := by
  refine .bind (.ofExcept fun d => TypeTable.fits_of_resolveStorage hN htype) fun resolved? u => ?_
  cases resolved? with
  | none => exact .pure _
  | some resolved =>
      refine newSymbol?_bind_raises fun symbol? v => ?_
      dsimp only
      split_ifs
      · exact .bind_pure (.report (.single rfl rfl hname))
      · exact .pure _

omit hN in
theorem block_raises {openBrace : Token} {statements : List Stmt}
    (h : ∀ scope u, (Stmt.declare.declareAll types scope loops statements).Raises .declaring N u) :
    (block types scope loops openBrace statements).Raises .declaring N t := by
  refine .bind (.add?_bind (fun _ _ _ => .pure _) fun _ => .pure _) fun inner? u => ?_
  cases inner? with
  | none => exact .pure _
  | some inner => exact h inner u

end Declaring

namespace Stmt

omit hN in
theorem declareAll_raises {statements : List Stmt}
    (h : ∀ s ∈ statements, ∀ scope u, (s.declare types scope loops).Raises .declaring N u) :
    (declare.declareAll types scope loops statements).Raises .declaring N t := by
  induction statements generalizing t with
  | nil => exact .pure _
  | cons s ss ih =>
      refine .bind (h s (by simp) scope t) fun s u => ?_
      exact (ih fun s hs => h s (by simp [hs])).bind_pure

theorem declare_raises (s : Stmt) (hnames : ∀ n ∈ s.names, N n.text) :
    (s.declare types scope loops).Raises .declaring N t := by
  induction s using Stmt.tree_induction generalizing scope loops t with
  | empty | assign | returnValue | call => exact .pure _
  | breakLoop token =>
      unfold declare
      split_ifs
      · exact (Declaring.Raises.report ⟨rfl, List.forall_mem_nil _⟩).bind_pure
      · exact .pure _
  | whileLoop condition body token ih | ifThen condition body token ih =>
      exact (ih fun n hn => hnames n (List.mem_append_right _ hn)).bind_pure
  | ifThenElse condition thenBranch elseBranch token ihthen ihelse =>
      refine (ihthen fun n hn => hnames n (by simp [names, hn])).bind fun _ _ => ?_
      exact (ihelse fun n hn => hnames n (by simp [names, hn])).bind_pure
  | block statements openBrace ih =>
      rw [declare_block]
      refine Declaring.Raises.bind_pure (Declaring.block_raises fun scope u => ?_)
      exact declareAll_raises fun s hs scope u =>
        ih s hs fun n hn => hnames n (mem_namesAll.mpr ⟨s, hs, hn⟩)
  | varDecl type name initializer? symbol? =>
      have htype : N type.token.text := hnames _ (by simp [names])
      have hname : N name.text := hnames _ (by simp [names])
      refine .bind (Declaring.newVariable?_raises hN htype hname) fun r u => ?_
      cases r with
      | none => exact .pure _
      | some r => exact .pure _

end Stmt

namespace FnDef

theorem declareParam_raises {function : String} {p : Param} (hf : N function)
    (hnames : ∀ n ∈ p.names, N n.text) :
    (declareParam types scope function p).Raises .declaring N t := by
  have htype : N p.type.token.text := hnames _ (by simp [Param.names])
  have hname : N p.name.text := hnames _ (by simp [Param.names])
  refine .bind (.ofExcept fun d => TypeTable.fits_of_resolveStorage hN htype) fun type? u => ?_
  cases type? with
  | none => exact .pure _
  | some type =>
      refine Declaring.newSymbol?_bind_raises fun id? v => ?_
      cases id? with
      | none =>
          exact .bind_pure (.report (.pair rfl rfl hname hf))
      | some id => exact .pure _

theorem declareParams_raises {function : String} {ps : List Param} (hf : N function)
    (hnames : ∀ p ∈ ps, ∀ n ∈ p.names, N n.text) :
    (declareParams types scope function ps).Raises .declaring N t := by
  induction ps generalizing t with
  | nil => exact .pure _
  | cons p ps ih =>
      refine .bind (declareParam_raises hN hf (hnames p (by simp))) fun _ _ => ?_
      exact (ih fun p hp => hnames p (by simp [hp])).bind_pure

/-- Entering a function never fails at its result. -/
theorem enter_raises {f : FnDef} (hnames : ∀ n ∈ f.names, N n.text) :
    (f.enter types).Raises .declaring N t := by
  have htype : N f.returnType.token.text := hnames _ (by simp [names])
  have hname : N f.name.text := hnames _ (by simp [names])
  refine .bind (.ofExcept fun d => TypeTable.fits_of_resolve hN htype) fun returnType? u => ?_
  refine Declaring.newSymbol?_bind_raises fun id? v => ?_
  cases id? with
  | none =>
      exact .bind_pure (.report (.single rfl rfl hname))
  | some id =>
      refine .add?_bind (fun inner w hopen => .add?_bind (fun result x _ => ?_) fun hnone => ?_)
        fun _ => .pure _
      · refine .bind (declareParams_raises hN hname fun p hp n hn => ?_) fun r y => ?_
        · exact hnames n (by simp only [names, List.mem_cons, List.mem_append, List.mem_flatMap]
                             exact .inr (.inr (.inl ⟨p, hp, hn⟩)))
        · exact .modify_bind (.pure _)
      · exact absurd hnone (SymbolTable.opens_of_addSubScope? hopen).addSymbol?_ne_none

end FnDef

theorem Global.declare_raises {g : Global} (hnames : ∀ n ∈ g.names, N n.text) :
    (g.declare types).Raises .declaring N t := by
  cases g with
  | function f =>
      rw [declare_function]
      refine .seq (FnDef.enter_raises hN hnames) f.raw_enter fun r u hr => ?_
      cases r.2 with
      | none => exact .pure _
      | some scope =>
          refine Declaring.Raises.bind_pure (Declaring.block_raises fun scope u => ?_)
          refine Stmt.declareAll_raises fun s hs scope u => s.declare_raises hN fun n hn => ?_
          have hbody := Stmt.mem_namesAll.mpr ⟨s, hr.2 ▸ hs, hn⟩
          exact hnames n (by simp [names, FnDef.names, hbody])
  | var v =>
      have htype : N v.type.token.text := hnames _ (by simp [names])
      have hname : N v.name.text := hnames _ (by simp [names])
      unfold declare GlobalVar.declare
      dsimp only
      rw [map_eq_pure_bind, bind_assoc]
      refine .bind (Declaring.newVariable?_raises hN htype hname) fun r u => ?_
      cases r with
      | none => exact .pure _
      | some r => exact .pure _

/-- The first analysis reports nothing but faults of declarations, whatever the table is
that it begins with, and tells names of the program only. -/
theorem Program.declare_raises {p : Program} (hnames : ∀ n ∈ p.names, N n.text) :
    (p.declare types).Raises .declaring N t := by
  unfold declare
  refine Declaring.Raises.bind_pure ?_
  have hglobals : ∀ g ∈ p.globals, ∀ n ∈ g.names, N n.text := fun g hg n hn =>
    hnames n (List.mem_flatMap.mpr ⟨g, hg, hn⟩)
  generalize p.globals = gs at hglobals
  induction gs generalizing t with
  | nil => exact .pure _
  | cons g gs ih =>
      refine .bind (Global.declare_raises hN (hglobals g (by simp))) fun _ _ => ?_
      exact (ih fun g hg => hglobals g (by simp [hg])).bind_pure

end

/-! ## The second analysis: expressions -/

open Text (OneLine)

theorem UnaryOp.oneLine_texts (op : UnaryOp) : OneLine op.symbol ∧ OneLine op.expectation := by
  cases op <;> exact ⟨Text.oneLine_ofList.mpr (by decide), Text.oneLine_ofList.mpr (by decide)⟩

theorem BinaryOp.oneLine_texts (op : BinaryOp) : OneLine op.symbol ∧ OneLine op.expectation := by
  cases op <;> exact ⟨Text.oneLine_ofList.mpr (by decide), Text.oneLine_ofList.mpr (by decide)⟩

variable {initializing? : Option SymbolId}

theorem Ident.bind_raises {preference : Preference} {i : Ident} (hi : OneLine i.token.text) :
    (i.bind t scope preference).Raises .checking OneLine := by
  unfold bind
  split
  · exact .report_bind (.single rfl rfl hi) (.pure _)
  · split
    · exact .pure _
    · dsimp only
      split_ifs
      · exact .report_bind (.single rfl rfl hi) (.pure _)
      · exact .pure _

theorem Expr.bindAll_raises {es : List Expr}
    (h : ∀ e ∈ es, (e.bindNames t scope).Raises .checking OneLine) :
    (bindNames.bindAll t scope es).Raises .checking OneLine := by
  induction es with
  | nil => exact .pure _
  | cons e es ih =>
      refine .bind (h e (by simp)) ?_
      exact (ih fun e he => h e (by simp [he])).bind_pure

theorem Expr.bindNames_raises {e : Expr} (hnames : ∀ n ∈ e.names, OneLine n.text) :
    (e.bindNames t scope).Raises .checking OneLine := by
  induction e using Expr.tree_induction with
  | literal => exact .pure _
  | ident i => exact (Ident.bind_raises (hnames _ (by simp [names]))).bind_pure
  | unary op operand token type? ih => exact (ih hnames).bind_pure
  | binary op left right token type? ihl ihr =>
      refine (ihl fun n hn => hnames n (List.mem_append_left _ hn)).bind ?_
      split_ifs
      · exact .pure _
      · exact (ihr fun n hn => hnames n (List.mem_append_right _ hn)).bind_pure
  | call callee args openParen type? ih =>
      refine .bind (Ident.bind_raises (hnames _ (by simp [names]))) ?_
      refine Reported.Raises.bind_pure (bindAll_raises fun e he => ih e he fun n hn => ?_)
      exact hnames n (List.mem_cons_of_mem _ (mem_namesAll.mpr ⟨e, he, hn⟩))

theorem Ident.valueType_raises {i : Ident} (hi : OneLine i.token.text) :
    (i.valueType t initializing?).Raises .checking OneLine := by
  unfold valueType
  split
  · exact .pure _
  · split_ifs
    · exact .report_bind (.single rfl rfl hi) (.pure _)
    · exact .report_bind (.single rfl rfl hi) (.pure _)
    · exact .pure _

section
variable (htypes : ∀ type, OneLine (types.nameOf type))
include htypes

theorem TypeTable.oneLine_quotedName (type : TypeId) : OneLine (types.quotedName type) :=
  (Text.OneLine.append (by decide) (htypes type)).append (by decide)

namespace Typing

theorem subscript_raises (array index : TypeId) (place : Token) :
    (subscript types array index place).Raises .checking OneLine := by
  have hsymbol := BinaryOp.subscript.oneLine_texts.1
  have hname := TypeTable.oneLine_quotedName htypes
  have hfault : ∀ expected, OneLine expected → ∀ type, Fault.Fits .checking OneLine
      (.operandTypeError BinaryOp.subscript.symbol expected (types.quotedName type)) :=
    fun expected hexpected type => .triple rfl rfl hsymbol hexpected (hname type)
  unfold subscript
  dsimp only
  split
  · exact .report_bind (hfault _ (by decide) _) (.pure _)
  · split_ifs
    · exact .pure _
    · exact .report_bind (hfault _ (by decide) _) (.pure _)

theorem between_raises (op : BinaryOp) (left right : TypeId) (operator : Token) :
    (between types op left right operator).Raises .checking OneLine := by
  unfold between
  split
  · exact .pure _
  · have hand : OneLine " and " := by decide
    have hreceived := ((TypeTable.oneLine_quotedName htypes left).append hand).append
      (TypeTable.oneLine_quotedName htypes right)
    exact .report_bind (.triple rfl rfl op.oneLine_texts.1 op.oneLine_texts.2 hreceived) (.pure _)

theorem binary_raises (op : BinaryOp) (left? right? : Option TypeId)
    (operator rightToken : Token) :
    (binary types op left? right? operator rightToken).Raises .checking OneLine := by
  unfold binary
  split
  · split_ifs
    · exact subscript_raises htypes _ _ _
    · exact between_raises htypes _ _ _ _
  · exact .pure _

theorem unary_raises (op : UnaryOp) (operand? : Option TypeId) (operandToken : Token) :
    (unary types op operand? operandToken).Raises .checking OneLine := by
  have hname := TypeTable.oneLine_quotedName htypes
  unfold unary
  split
  · exact .pure _
  · split_ifs
    · exact .pure _
    · exact .report_bind (.triple rfl rfl op.oneLine_texts.1 op.oneLine_texts.2 (hname _)) (.pure _)

theorem member_raises (left? : Option TypeId) (dot : Token) :
    (member types left? dot).Raises .checking OneLine := by
  have hsymbol := BinaryOp.memberAccess.oneLine_texts.1
  unfold member
  split
  · exact .pure _
  · exact .report_bind (.pair rfl rfl hsymbol (htypes _)) (.pure _)

theorem arguments_raises (index : ℕ) (args : List (Typed Expr))
    (params : List (String × Option TypeId)) :
    (arguments types index args params).Raises .checking OneLine := by
  induction args generalizing index params with
  | nil => exact .pure _
  | cons arg args ih =>
      cases params with
      | nil => exact .pure _
      | cons param params =>
          unfold arguments
          dsimp only
          split
          · split_ifs
            · exact .report_bind (.pair rfl rfl (htypes _) (htypes _)) (ih _ _)
            · exact ih _ _
          · exact ih _ _

theorem call_raises {callee : Ident} (hcallee : OneLine callee.token.text)
    (args : List (Typed Expr)) : (call types t callee args).Raises .checking OneLine := by
  unfold call
  split
  · exact .pure _
  · split_ifs
    · exact .report_bind (.single rfl rfl hcallee) (.pure _)
    · exact .report_bind (.single rfl rfl hcallee)
        (.bind_pure (arguments_raises htypes _ _ _))
    · exact .bind_pure (arguments_raises htypes _ _ _)

end Typing

omit htypes in
theorem Expr.inferAll_raises {es : List Expr}
    (h : ∀ e ∈ es, (e.infer types t initializing?).Raises .checking OneLine) :
    (infer.inferAll types t initializing? es).Raises .checking OneLine := by
  induction es with
  | nil => exact .pure _
  | cons e es ih =>
      refine .bind (h e (by simp)) ?_
      exact (ih fun e he => h e (by simp [he])).bind_pure

theorem Expr.infer_raises {e : Expr} (hnames : ∀ n ∈ e.names, OneLine n.text) :
    (e.infer types t initializing?).Raises .checking OneLine := by
  induction e using Expr.tree_induction with
  | literal => exact .pure _
  | ident i => exact (Ident.valueType_raises (hnames _ (by simp [names]))).bind_pure
  | unary op operand token type? ih =>
      exact (ih hnames).bind (Typing.unary_raises htypes _ _ _).bind_pure
  | binary op left right token type? ihl ihr =>
      refine (ihl fun n hn => hnames n (List.mem_append_left _ hn)).bind ?_
      dsimp only
      split_ifs
      · exact (Typing.member_raises htypes _ _).bind_pure
      · exact (ihr fun n hn => hnames n (List.mem_append_right _ hn)).bind
          (Typing.binary_raises htypes _ _ _ _ _).bind_pure
  | call callee args openParen type? ih =>
      refine .bind (inferAll_raises fun e he => ih e he fun n hn => ?_) ?_
      · exact hnames n (List.mem_cons_of_mem _ (mem_namesAll.mpr ⟨e, he, hn⟩))
      · exact (Typing.call_raises htypes (hnames _ (by simp [names])) _).bind_pure

omit htypes in
theorem Expr.oneLine_bindNames {e : Expr} (h : ∀ n ∈ e.names, OneLine n.text) :
    ∀ n ∈ (e.bindNames t scope).value.names, OneLine n.text :=
  fun n hn => h n (Expr.names_bindNames _ ▸ hn)

/-! ## The second analysis: statements and programs -/

namespace Checking

theorem condition_raises {statement : String} {e : Expr} (hs : OneLine statement) (token : Token)
    (hnames : ∀ n ∈ e.names, OneLine n.text) :
    (condition types t statement token e).Raises .checking OneLine := by
  refine (Expr.infer_raises htypes hnames).bind ?_
  generalize (e.infer types t none).value = r
  obtain ⟨e, found?⟩ := r
  cases found? with
  | none => exact .pure _
  | some type =>
      dsimp only
      split_ifs
      · exact .pure _
      · exact .report_bind (.pair rfl rfl hs (htypes _)) (.pure _)

theorem assignable_raises (expected? received? : Option TypeId) (token : Token) :
    (assignable types expected? received? token).Raises .checking OneLine := by
  unfold assignable
  split
  · split_ifs
    · exact .report (.pair rfl rfl (htypes _) (htypes _))
    · exact .pure _
  · exact .pure _

theorem returned_raises {value? : Option Expr} (token : Token)
    (hnames : ∀ e ∈ value?, ∀ n ∈ e.names, OneLine n.text) :
    (returned types t scope token value?).Raises .checking OneLine := by
  unfold returned
  split
  · exact .pure _
  · split_ifs
    · exact .pure _
    · exact .report_bind (.single rfl rfl (htypes _)) (.pure _)
  · next expected value _ =>
      refine Reported.Raises.bind (Expr.infer_raises htypes (hnames value rfl)) ?_
      generalize (value.infer types t none).value = r
      obtain ⟨value, found?⟩ := r
      cases found? with
      | none => exact .pure _
      | some received =>
          dsimp only
          split_ifs
          · exact .pure _
          · exact .report_bind (.pair rfl rfl (htypes _) (htypes _)) (.pure _)

end Checking

namespace Stmt

theorem check_assign_raises {target : Ident} {value : Expr}
    (hnames : ∀ n ∈ (assign target value).names, OneLine n.text) :
    ((assign target value).check types t scope).Raises .checking OneLine := by
  have htarget : OneLine target.token.text := hnames _ (by simp [names])
  have hvalue : ∀ n ∈ value.names, OneLine n.text := fun n hn =>
    hnames n (List.mem_cons_of_mem _ hn)
  refine .bind (Ident.bind_raises htarget) (.bind (Expr.bindNames_raises hvalue) ?_)
  refine .bind (Ident.valueType_raises ?_) (.bind ?_ ?_)
  · rw [Ident.token_bind]
    exact htarget
  · exact Expr.infer_raises htypes (Expr.oneLine_bindNames hvalue)
  · exact (Checking.assignable_raises htypes _ _ _).bind_pure

theorem check_returnValue_raises {value? : Option Expr} {token : Token}
    (hnames : ∀ n ∈ (returnValue value? token).names, OneLine n.text) :
    ((returnValue value? token).check types t scope).Raises .checking OneLine := by
  cases value? with
  | none =>
      have hnone : ∀ e ∈ (none : Option Expr), ∀ n ∈ e.names, OneLine n.text := by
        simp
      exact .bind (.pure _) (Checking.returned_raises htypes token hnone).bind_pure
  | some value =>
      have hvalue : ∀ n ∈ value.names, OneLine n.text := fun n hn =>
        hnames n (by simpa [names] using hn)
      refine .bind (Expr.bindNames_raises hvalue).bind_pure ?_
      refine (Checking.returned_raises htypes token ?_).bind_pure
      rintro _ ⟨⟩
      exact Expr.oneLine_bindNames hvalue

theorem check_varDecl_raises {type : TypeName} {name : Token} {initializer? : Option Expr}
    {symbol? : Option SymbolId}
    (hnames : ∀ n ∈ (varDecl type name initializer? symbol?).names, OneLine n.text) :
    ((varDecl type name initializer? symbol?).check types t scope).Raises .checking OneLine := by
  unfold check
  split
  · next symbol initializer =>
      have hvalue : ∀ n ∈ initializer.names, OneLine n.text := fun n hn =>
        hnames n (by simp [names, hn])
      refine .bind (Expr.bindNames_raises hvalue) ?_
      split
      · exact .pure _
      · exact .bind (Expr.infer_raises htypes (Expr.oneLine_bindNames hvalue))
          (Checking.assignable_raises htypes _ _ _).bind_pure
  · exact .pure _

theorem check_call_raises {callee : Ident} {args : List Expr} {openParen : Token}
    (hnames : ∀ n ∈ (call callee args openParen).names, OneLine n.text) :
    ((call callee args openParen).check types t scope).Raises .checking OneLine := by
  have hcallee : OneLine callee.token.text := hnames _ (by simp [names])
  have hargs : ∀ e ∈ args, ∀ n ∈ e.names, OneLine n.text := fun e he n hn =>
    hnames n (List.mem_cons_of_mem _ (Expr.mem_namesAll.mpr ⟨e, he, hn⟩))
  refine .bind (Ident.bind_raises hcallee) ?_
  refine .bind (Expr.bindAll_raises fun e he => Expr.bindNames_raises (hargs e he)) ?_
  have hinfer : ∀ e ∈ (Expr.bindNames.bindAll t scope args).value,
      ∀ n ∈ e.names, OneLine n.text := by
    intro e he
    obtain ⟨d, hd, rfl⟩ := Expr.mem_bindAll he
    exact Expr.oneLine_bindNames (hargs d hd)
  refine .bind (Expr.inferAll_raises fun e he => Expr.infer_raises htypes (hinfer e he)) ?_
  refine Reported.Raises.bind_pure (Typing.call_raises htypes ?_ _)
  rw [Ident.token_bind]
  exact hcallee

omit htypes in
theorem checkAll_raises {statements : List Stmt}
    (h : ∀ s ∈ statements, (s.check types t scope).Raises .checking OneLine) :
    (check.checkAll types t scope statements).Raises .checking OneLine := by
  induction statements with
  | nil => exact .pure _
  | cons s ss ih =>
      refine .bind (h s (by simp)) ?_
      exact (ih fun s hs => h s (by simp [hs])).bind_pure

theorem check_raises {s : Stmt} (hnames : ∀ n ∈ s.names, OneLine n.text) :
    (s.check types t scope).Raises .checking OneLine := by
  induction s using Stmt.tree_induction generalizing scope with
  | empty | breakLoop => exact .pure _
  | whileLoop condition body token ih | ifThen condition body token ih =>
      have hcondition : ∀ n ∈ condition.names, OneLine n.text := fun n hn =>
        hnames n (List.mem_append_left _ hn)
      refine (Expr.bindNames_raises hcondition).bind ?_
      refine (ih fun n hn => hnames n (List.mem_append_right _ hn)).bind ?_
      refine Reported.Raises.bind_pure ?_
      exact Checking.condition_raises htypes (by decide) _ (Expr.oneLine_bindNames hcondition)
  | ifThenElse condition thenBranch elseBranch token ihthen ihelse =>
      have hcondition : ∀ n ∈ condition.names, OneLine n.text := fun n hn =>
        hnames n (List.mem_append_left _ hn)
      refine (Expr.bindNames_raises hcondition).bind ?_
      refine (ihthen fun n hn => hnames n (by simp [names, hn])).bind ?_
      refine (ihelse fun n hn => hnames n (by simp [names, hn])).bind ?_
      refine Reported.Raises.bind_pure ?_
      exact Checking.condition_raises htypes (by decide) _ (Expr.oneLine_bindNames hcondition)
  | block statements openBrace ih =>
      rw [check_block]
      refine Reported.Raises.bind_pure ?_
      cases t.subScope? scope (blockScopeName openBrace) with
      | none => exact .pure _
      | some inner =>
          refine checkAll_raises fun s hs => ih s hs fun n hn => ?_
          exact hnames n (mem_namesAll.mpr ⟨s, hs, hn⟩)
  | assign => exact check_assign_raises htypes hnames
  | returnValue => exact check_returnValue_raises htypes hnames
  | varDecl => exact check_varDecl_raises htypes hnames
  | call => exact check_call_raises htypes hnames

end Stmt

theorem Global.check_raises {g : Global} (hnames : ∀ n ∈ g.names, OneLine n.text) :
    (g.check types t).Raises .checking OneLine := by
  cases g with
  | var v => exact .pure _
  | function f =>
      rw [check_function]
      split
      · exact .pure _
      · refine Reported.Raises.bind_pure ?_
        cases t.subScope? _ (Stmt.blockScopeName f.openBrace) with
        | none => exact .pure _
        | some inner =>
            refine Stmt.checkAll_raises fun s hs => Stmt.check_raises htypes fun n hn => ?_
            have hbody := Stmt.mem_namesAll.mpr ⟨s, hs, hn⟩
            exact hnames n (by simp [names, FnDef.names, hbody])

/-- The second analysis reports nothing but faults of names and types, in messages of one
line. -/
theorem Program.check_raises {p : Program} (hnames : ∀ n ∈ p.names, OneLine n.text) :
    (p.check types t).Raises .checking OneLine := by
  unfold check
  refine Reported.Raises.bind_pure ?_
  have hglobals : ∀ g ∈ p.globals, ∀ n ∈ g.names, OneLine n.text := fun g hg n hn =>
    hnames n (List.mem_flatMap.mpr ⟨g, hg, hn⟩)
  generalize p.globals = gs at hglobals
  induction gs with
  | nil => exact .pure _
  | cons g gs ih =>
      refine .bind (Global.check_raises htypes (hglobals g (by simp))) ?_
      exact (ih fun g hg => hglobals g (by simp [hg])).bind_pure

end

end ScriptFront
