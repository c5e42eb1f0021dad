import ScriptFront.Proofs.Program.Housed
import ScriptFront.Proofs.Typing.Declaring

/-!
# What variables can hold

The first analysis declares a variable or a parameter only with a type that has values.
So where it has nothing to report, a type without values is at most the result type of a
function.
-/
namespace ScriptFront

variable {types : TypeTable} {t u : SymbolTable} {scope : ScopeId} {loops : ℕ}

/-- The type has values. -/
def TypeTable.HoldsValues (types : TypeTable) (type : TypeId) : Prop :=
  ((types.info? type).map TypeInfo.size).getD 0 ≠ 0

instance (types : TypeTable) (type : TypeId) : Decidable (types.HoldsValues type) :=
  inferInstanceAs (Decidable (_ ≠ _))

theorem TypeTable.holdsValues_of_resolveStorage {written : TypeName} {type : TypeId}
    (h : types.resolveStorage written = .ok type) : types.HoldsValues type := by
  unfold resolveStorage at h
  cases hr : types.resolve written with
  | error d =>
      rw [hr] at h
      cases h
  | ok found =>
      rw [hr] at h
      simp only [bind, Except.bind, pure, Except.pure, throw] at h
      split_ifs at h with hsize
      obtain rfl := Except.ok.inj h
      exact hsize

/-- The written type is resolved to a type that has values. -/
def TypeName.Stored (types : TypeTable) (written : TypeName) : Prop :=
  ∃ t, written.resolved? = some t ∧ types.HoldsValues t

/-! ## Symbols -/

/-- What has a value has a type with values, unless it is the result of a function. -/
structure Symbol.Stored (types : TypeTable) (s : Symbol) : Prop where
  type : s.kind ∉ [.function, .returnValue] →
    ∀ type, s.type? = some type → types.HoldsValues type
  result : s.kind = .returnValue → s.name = Symbol.returnValueName
  params : ∀ entry ∈ s.params, ∀ type, entry.2 = some type → types.HoldsValues type

/-- All symbols of the table have types with values where values are stored. -/
def SymbolTable.Stores (types : TypeTable) (t : SymbolTable) : Prop :=
  ∀ id symbol, t.symbol? id = some symbol → symbol.Stored types

namespace SymbolTable

theorem stores_empty : empty.Stores types := by
  intro id symbol hs
  rw [symbol?_empty] at hs
  cases hs

namespace Stores

variable {symbol : Symbol} {id : SymbolId} (h : t.Stores types)
include h

theorem adds (ha : t.Adds scope symbol id u) (hs : symbol.Stored types) : u.Stores types := by
  intro i s hi
  rcases ha.symbol?_cases hi with ⟨-, rfl⟩ | hi
  · exact ⟨hs.type, hs.result, hs.params⟩
  · exact h i s hi

theorem opens {name : String} {inner : ScopeId} (ho : t.Opens scope name inner u) :
    u.Stores types := by
  intro i s hi
  rw [ho.symbol_eq] at hi
  exact h i s hi

/-- A function may get any result type. -/
theorem setSignature (hs : ∀ s, t.symbol? id = some s → s.kind = .function)
    {type? : Option TypeId} {params : List (String × Option TypeId)}
    (hparams : ∀ entry ∈ params, ∀ type, entry.2 = some type → types.HoldsValues type) :
    (t.setSignature id type? params).Stores types := by
  intro i s hi
  rw [symbol?_setSignature] at hi
  split_ifs at hi with heq
  · obtain ⟨old, hold, rfl⟩ := Option.map_eq_some_iff.mp hi
    have hkind : old.kind = .function := hs old (heq ▸ hold)
    exact ⟨fun hk => absurd hkind (fun hk' => hk (by simp [hk'])), (h i old hold).result, hparams⟩
  · exact h i s hi

end Stores

end SymbolTable

/-! ## Declarations -/

namespace Declaring

variable {α : Type} {m : Declaring α} {Q Q' : α → SymbolTable → Prop}

/-- What a clean run leads to holds next to what holds behind every run. -/
theorem Leads.and_ends (h : m.Leads t Q) (h' : m.Ends t Q') :
    m.Leads t fun a u => Q a u ∧ Q' a u := fun hm => ⟨h hm, h'.post⟩

theorem newSymbol?_stores (h : t.Stores types) {kind : SymbolKind} {name : Token} {type : TypeId}
    (hkind : kind ≠ .returnValue) (htype : types.HoldsValues type) :
    (newSymbol? scope kind name (some type)).Leads t fun _ u => u.Stores types := by
  refine (newSymbol?_leads kind name (some type)).mono ?_
  rintro id? u (⟨-, rfl⟩ | ⟨id, -, hadds⟩)
  · exact h
  · refine h.adds hadds ⟨fun _ type' htype' => ?_, fun hk => absurd hk hkind, nofun⟩
    obtain rfl := Option.some.inj htype'
    exact htype

theorem newVariable?_stores (h : t.Stores types) {kind : SymbolKind} (hkind : kind ≠ .returnValue)
    (type : TypeName) (name : Token) :
    (newVariable? types scope kind type name).Leads t fun r u => u.Stores types ∧
      ∃ v, r = some v ∧ v.1.Stored types := by
  unfold newVariable?
  apply Leads.bind
  apply Leads.ofExcept
  intro resolved hresolved
  have hstored := TypeTable.holdsValues_of_resolveStorage hresolved
  refine Leads.seq (newSymbol?_stores h hkind hstored) fun id? u hu => ?_
  dsimp only
  split_ifs
  · exact .bind .report
  · exact .pure ⟨hu, _, rfl, resolved, rfl, hstored⟩

theorem blockScope?_stores (h : t.Stores types) (name : String) :
    (blockScope? scope name).Leads t fun _ u => u.Stores types := by
  unfold blockScope?
  apply Leads.bind
  apply Leads.add?
  · intro inner u hu
    exact .pure (h.opens (SymbolTable.opens_of_addSubScope? hu))
  · exact fun _ _ => h

end Declaring

/-! ## Statements -/

/-- The types of the variables that a statement declares. -/
def Stmt.variableTypes : Stmt → List TypeName
  | whileLoop _ body _ => body.variableTypes
  | ifThen _ thenBranch _ => thenBranch.variableTypes
  | ifThenElse _ thenBranch elseBranch _ => thenBranch.variableTypes ++ elseBranch.variableTypes
  | block statements _ => variableTypesAll statements
  | varDecl type _ _ _ => [type]
  | _ => []
where
  variableTypesAll : List Stmt → List TypeName
    | [] => []
    | s :: ss => s.variableTypes ++ variableTypesAll ss

/-- All variables of the statement have types with values. -/
def Stmt.Stored (types : TypeTable) (s : Stmt) : Prop := ∀ v ∈ s.variableTypes, v.Stored types

namespace Stmt

theorem stored_ifThenElse {condition : Expr} {thenBranch elseBranch : Stmt} {token : Token} :
    (ifThenElse condition thenBranch elseBranch token).Stored types ↔
      thenBranch.Stored types ∧ elseBranch.Stored types :=
  List.forall_mem_append

theorem stored_block {statements : List Stmt} {openBrace : Token} :
    (block statements openBrace).Stored types ↔ ∀ s ∈ statements, s.Stored types := by
  change (∀ v ∈ variableTypes.variableTypesAll statements, _) ↔ _
  induction statements with
  | nil => simp [variableTypes.variableTypesAll]
  | cons s ss ih =>
      rw [variableTypes.variableTypesAll, List.forall_mem_append, ih, List.forall_mem_cons]
      rfl

theorem declareAll_stores {ss : List Stmt} (ht : t.Nested) (hs : t.Known scope)
    (hroot : scope ≠ .global) (h : t.Stores types)
    (ih : ∀ s ∈ ss, ∀ {t : SymbolTable}, t.Nested → t.Known scope → t.Stores types →
      (s.declare types scope loops).Leads t fun s' u => u.Stores types ∧ s'.Stored types) :
    (declare.declareAll types scope loops ss).Leads t fun ss' u =>
      u.Stores types ∧ ∀ s ∈ ss', s.Stored types := by
  induction ss generalizing t with
  | nil => exact .pure ⟨h, List.forall_mem_nil _⟩
  | cons s ss ihs =>
      unfold declare.declareAll
      refine .seq ((ih s (by simp) ht hs h).and_ends (declare_ends ht hs hroot)) ?_
      rintro s' u ⟨⟨hu, hs'⟩, hevolves, -⟩
      refine .seq (ihs hevolves.nested (hevolves.known hs) hu fun s hs => ih s (by simp [hs])) ?_
      rintro ss' v ⟨hv, hss'⟩
      exact .pure ⟨hv, List.forall_mem_cons.mpr ⟨hs', hss'⟩⟩

end Stmt

theorem Declaring.block_stores {ss : List Stmt} {openBrace : Token} (ht : t.Nested)
    (hs : t.Known scope) (hroot : scope ≠ .global) (h : t.Stores types)
    (ih : ∀ s ∈ ss, ∀ {t : SymbolTable} {scope : ScopeId}, t.Nested → t.Known scope →
      scope ≠ .global → t.Stores types →
      (s.declare types scope loops).Leads t fun s' u => u.Stores types ∧ s'.Stored types) :
    (Declaring.block types scope loops openBrace ss).Leads t fun ss' u =>
      u.Stores types ∧ ∀ s ∈ ss', s.Stored types := by
  unfold Declaring.block
  refine .seq ((blockScope?_stores h _).and_ends (blockScope?_ends ht hs hroot _)) ?_
  rintro _ u ⟨hu, hevolves, inner, rfl, hinner⟩
  have hbelow := hevolves.nested.inner_ne_global hinner
  exact Stmt.declareAll_stores hevolves.nested (hevolves.nested.known_inner hinner) hbelow hu
    fun s hs _ ht hk h => ih s hs ht hk hbelow h

/-- A clean run through a statement leaves its variables with types that have values. -/
theorem Stmt.declare_stores {s : Stmt} (ht : t.Nested) (hs : t.Known scope)
    (hroot : scope ≠ .global) (h : t.Stores types) :
    (s.declare types scope loops).Leads t fun s' u => u.Stores types ∧ s'.Stored types := by
  induction s using Stmt.tree_induction generalizing t scope loops with
  | empty | assign | returnValue | call => exact .pure ⟨h, List.forall_mem_nil _⟩
  | breakLoop token =>
      unfold declare
      dsimp only
      split_ifs
      · exact .bind .report
      · exact .pure ⟨h, List.forall_mem_nil _⟩
  | whileLoop condition body token ih =>
      unfold declare
      exact .seq (ih ht hs hroot h) fun body' u hbody => .pure hbody
  | ifThen condition thenBranch token ih =>
      unfold declare
      exact .seq (ih ht hs hroot h) fun then' u hthen => .pure hthen
  | ifThenElse condition thenBranch elseBranch token ihthen ihelse =>
      unfold declare
      refine .seq ((ihthen ht hs hroot h).and_ends (declare_ends ht hs hroot)) ?_
      rintro then' u ⟨⟨hu, hthen⟩, hevolves, -⟩
      refine .seq (ihelse hevolves.nested (hevolves.known hs) hroot hu) ?_
      rintro else' v ⟨hv, helse⟩
      exact .pure ⟨hv, stored_ifThenElse.mpr ⟨hthen, helse⟩⟩
  | block statements openBrace ih =>
      rw [declare_block]
      refine .seq (Declaring.block_stores ht hs hroot h fun s hs => ih s hs) ?_
      rintro ss' u ⟨hu, hss'⟩
      exact .pure ⟨hu, stored_block.mpr hss'⟩
  | varDecl type name initializer? symbol? =>
      have hvariable : SymbolKind.localVariable ≠ .returnValue := by decide
      unfold declare
      refine .seq (Declaring.newVariable?_stores h hvariable type name) ?_
      rintro _ u ⟨hu, v, rfl, hv⟩
      exact .pure ⟨hu, List.forall_mem_singleton.mpr hv⟩

/-! ## Functions -/

/-- The entries of a signature have types with values. -/
def FnDef.AllStored (types : TypeTable) (signature : List FnDef.SignatureEntry) : Prop :=
  ∀ entry ∈ signature, ∀ type, entry.2 = some type → types.HoldsValues type

theorem FnDef.declareParam_stores {function : String} {p : Param} (h : t.Stores types) :
    (declareParam types scope function p).Leads t fun r u =>
      u.Stores types ∧ AllStored types r.2.toList := by
  unfold declareParam
  apply Declaring.Leads.bind
  apply Declaring.Leads.ofExcept
  intro type hresolved
  have hstored := TypeTable.holdsValues_of_resolveStorage hresolved
  have hparameter : SymbolKind.parameter ≠ .returnValue := by decide
  refine .seq (Declaring.newSymbol?_stores h hparameter hstored) fun id? u hu => ?_
  cases id? with
  | none => exact .bind .report
  | some id =>
      refine .pure ⟨hu, List.forall_mem_singleton.mpr fun type' htype => ?_⟩
      obtain rfl := Option.some.inj htype
      exact hstored

theorem FnDef.declareParams_stores {function : String} {ps : List Param} (h : t.Stores types) :
    (declareParams types scope function ps).Leads t fun r u =>
      u.Stores types ∧ AllStored types r.2 := by
  induction ps generalizing t with
  | nil => exact .pure ⟨h, List.forall_mem_nil _⟩
  | cons p ps ih =>
      unfold declareParams
      refine .seq (declareParam_stores h) ?_
      rintro ⟨p', entry?⟩ u ⟨hu, hentry⟩
      refine .seq (ih hu) ?_
      rintro ⟨ps', entries⟩ v ⟨hv, hentries⟩
      exact .pure ⟨hv, List.forall_mem_append.mpr ⟨hentry, hentries⟩⟩

theorem FnDef.enter_stores {f : FnDef} (ht : t.Nested) (h : t.Stores types) :
    (f.enter types).Leads t fun _ u => u.Stores types := by
  unfold enter
  apply Declaring.Leads.bind
  apply Declaring.Leads.ofExcept
  intro result _
  apply Declaring.Leads.bind
  apply Declaring.Leads.add?
  case hnone => exact fun _ => .bind .report
  intro id u₁ hadd
  have hadds := SymbolTable.adds_of_addSymbol? hadd
  have hevolves₁ := hadds.evolve ht
  have hstores₁ := h.adds hadds ⟨fun hk => absurd hk (by simp), nofun, nofun⟩
  apply Declaring.Leads.bind
  apply Declaring.Leads.add?
  case hnone => exact fun _ => .pure hstores₁
  intro scope u₂ hadd
  have hopens : u₁.Opens .global f.name.text scope u₂ := SymbolTable.opens_of_addSubScope? hadd
  have hevolves₂ := hopens.evolve hevolves₁.nested fun _ => ⟨id, hadds.declared⟩
  have hstores₂ := hstores₁.opens hopens
  apply Declaring.Leads.bind
  apply Declaring.Leads.add?
  case hnone => exact fun _ => .bind .report
  intro entry u₃ hadd
  have hresult := SymbolTable.adds_of_addSymbol? hadd
  have hevolves₃ := hevolves₂.trans (hresult.evolve hevolves₂.nested)
  have hstores₃ := hstores₂.adds hresult ⟨fun hk => absurd hk (by simp), fun _ => rfl, nofun⟩
  refine .seq ((declareParams_stores hstores₃).and_ends
    (declareParams_ends hevolves₃.nested)) ?_
  rintro ⟨params, signature⟩ u₄ ⟨⟨hstores₄, hsignature⟩, hevolves₄⟩
  apply Declaring.Leads.bind
  apply Declaring.Leads.modify
  refine .pure (hstores₄.setSignature (fun s hs => ?_) hsignature)
  obtain ⟨_, _, hentry⟩ := (hevolves₃.trans hevolves₄).entry hadds.entry
  rw [← Option.some.inj (hentry.symm.trans hs)]

theorem FnDef.declare_stores {f : FnDef} (ht : t.Nested) (hnew : f.symbol? = none)
    (h : t.Stores types) : (f.declare types).Leads t fun f' u =>
      u.Stores types ∧ (f'.symbol?.isSome → ∀ s ∈ f'.body, s.Stored types) := by
  rw [declare_eq]
  refine .seq ((enter_stores ht h).and_ends (enter_ends ht hnew)) ?_
  rintro ⟨f', scope?⟩ u ⟨hu, hevolves, -, -, -, hnone, hsome⟩
  cases scope? with
  | none =>
      refine .pure ⟨hu, fun hsymbol => ?_⟩
      rw [show f'.symbol? = none from hnone rfl] at hsymbol
      cases hsymbol
  | some scope =>
      obtain ⟨-, hscope⟩ := hsome scope rfl
      refine .seq (Declaring.block_stores hevolves.nested (hevolves.nested.known_inner hscope)
        (hevolves.nested.inner_ne_global hscope) hu fun _ _ _ _ => Stmt.declare_stores) ?_
      rintro body v ⟨hv, hbody⟩
      exact .pure ⟨hv, fun _ => hbody⟩

/-! ## Programs -/

/-- All variables of the definition have types with values, if it was declared. -/
def Global.Stored (types : TypeTable) : Global → Prop
  | function f => f.symbol?.isSome → ∀ s ∈ f.body, s.Stored types
  | var _ => True

theorem Global.declare_stores {g : Global} (ht : t.Nested) (hnew : g.IsNew)
    (h : t.Stores types) :
    (g.declare types).Leads t fun g' u => u.Stores types ∧ g'.Stored types := by
  cases g with
  | function f =>
      unfold declare
      dsimp only
      rw [map_eq_pure_bind]
      exact .seq (FnDef.declare_stores ht hnew h) fun f' u hf => .pure hf
  | var v =>
      have hvariable : SymbolKind.globalVariable ≠ .returnValue := by decide
      unfold declare GlobalVar.declare
      dsimp only
      rw [map_eq_pure_bind]
      refine .bind (.seq (Declaring.newVariable?_stores h hvariable _ _) ?_)
      rintro _ u ⟨hu, w, rfl, -⟩
      exact .pure (.pure ⟨hu, trivial⟩)

/-- A clean first analysis stores no value of a type that has none. -/
theorem Global.declareAll_stores {gs : List Global} (ht : t.Nested) (hnew : ∀ g ∈ gs, g.IsNew)
    (h : t.Stores types) : (declareAll types gs).Leads t fun gs' u =>
      u.Stores types ∧ ∀ g ∈ gs', g.Stored types := by
  induction gs generalizing t with
  | nil => exact .pure ⟨h, by simp⟩
  | cons g gs ih =>
      unfold declareAll
      have hfirst : g.IsNew := hnew g List.mem_cons_self
      have hrest : ∀ g ∈ gs, g.IsNew := fun g hg => hnew g (List.mem_cons_of_mem _ hg)
      refine .seq ((declare_stores ht hfirst h).and_ends (declare_ends ht hfirst)) ?_
      rintro g' u ⟨⟨hu, hg⟩, hevolves, -⟩
      refine .seq (ih hevolves.nested hrest hu) ?_
      rintro gs' v ⟨hv, hgs⟩
      exact .pure ⟨hv, List.forall_mem_cons.mpr ⟨hg, hgs⟩⟩

theorem Program.declare_stores {p : Program} (hnew : ∀ g ∈ p.globals, g.IsNew) :
    (p.declare types).Leads .empty fun p' u =>
      u.Stores types ∧ ∀ g ∈ p'.globals, g.Stored types := by
  unfold declare
  exact .seq (Global.declareAll_stores SymbolTable.nested_empty hnew SymbolTable.stores_empty)
    fun gs u hgs => .pure hgs

end ScriptFront
