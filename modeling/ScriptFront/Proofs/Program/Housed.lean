import ScriptFront.Proofs.Program.Names
import ScriptFront.Proofs.Program.Parts
import ScriptFront.Proofs.SymbolTable.Nesting
import ScriptFront.Proofs.Tree.Induction

/-!
# Every run of the first analysis

What holds behind the first analysis even where it has reported something: the table
has grown and is nested, each block has its scope, and a function that carries a symbol
has a scope with the scope of its body inside.
-/
namespace ScriptFront

namespace Declaring

variable {α β : Type} {m : Declaring α} {t u : SymbolTable} {Q Q' : α → SymbolTable → Prop}

/-- A run from `t` ends as `Q` says. -/
structure Ends (m : Declaring α) (t : SymbolTable) (Q : α → SymbolTable → Prop) : Prop where
  post : Q (m t).value.1 (m t).value.2

namespace Ends

theorem mono (h : m.Ends t Q) (hQ : ∀ a u, Q a u → Q' a u) : m.Ends t Q' := ⟨hQ _ _ h.post⟩

theorem pure {a : α} (h : Q a t) : (Pure.pure a : Declaring α).Ends t Q := ⟨h⟩

theorem bind {f : α → Declaring β} {R : β → SymbolTable → Prop}
    (h : m.Ends t fun a u => (f a).Ends u R) : (m >>= f).Ends t R := ⟨h.post.post⟩

theorem seq {f : α → Declaring β} {R : β → SymbolTable → Prop} (h : m.Ends t Q)
    (hf : ∀ a u, Q a u → (f a).Ends u R) : (m >>= f).Ends t R :=
  .bind (h.mono hf)

theorem report {fault : Fault} {token : Token} {f : Unit → Declaring α} (h : (f ()).Ends t Q) :
    (Declaring.report fault token >>= f).Ends t Q := ⟨h.post⟩

theorem report_if {fault : Fault} {token : Token} {c : Prop} [Decidable c]
    {f : Unit → Declaring α} (h : (f ()).Ends t Q) :
    (if c then Declaring.report fault token >>= f else f ()).Ends t Q := by
  split_ifs
  · exact .report h
  · exact h

theorem ofExcept {x : Except Diagnostic α} {Q : Option α → SymbolTable → Prop}
    (h : ∀ a, x = .ok a → Q (some a) t) (hnone : Q none t) :
    Ends (StateT.lift (Reported.ofExcept x)) t Q := by
  cases x with
  | error d => exact ⟨hnone⟩
  | ok a => exact ⟨h a rfl⟩

theorem add? {addition : SymbolTable → Option (α × SymbolTable)}
    {Q : Option α → SymbolTable → Prop} (h : ∀ a u, addition t = some (a, u) → Q (some a) u)
    (hnone : addition t = none → Q none t) : (Declaring.add? addition).Ends t Q := by
  constructor
  unfold Declaring.add?
  rcases hadd : addition t with _ | ⟨a, u⟩
  · exact hnone hadd
  · exact h a u hadd

theorem modify {f : SymbolTable → SymbolTable} {Q : Unit → SymbolTable → Prop}
    (h : Q () (f t)) : Ends (modifyThe SymbolTable f) t Q := ⟨h⟩

end Ends

variable {types : TypeTable} {scope : ScopeId}

theorem newSymbol?_ends (ht : t.Nested) (kind : SymbolKind) (name : Token)
    (type? : Option TypeId) :
    (newSymbol? scope kind name type?).Ends t fun id? u => t.Evolves u ∧
      ∀ id, id? = some id → u.local? scope name.text = some id := by
  apply Ends.add?
  · intro id u hu
    have hadds := SymbolTable.adds_of_addSymbol? hu
    refine ⟨hadds.evolve ht, ?_⟩
    rintro _ ⟨⟩
    exact hadds.declared
  · exact fun _ => ⟨ht.refl, nofun⟩

theorem newVariable?_ends (ht : t.Nested) (kind : SymbolKind) (type : TypeName) (name : Token) :
    (newVariable? types scope kind type name).Ends t fun r u =>
      t.Evolves u ∧ ∀ v, r = some v → v.1.token = type.token := by
  apply Ends.bind
  apply Ends.ofExcept
  · intro resolved _
    refine Ends.seq (newSymbol?_ends ht kind name (some resolved)) ?_
    rintro id? u ⟨hevolves, -⟩
    refine .report_if (.pure ⟨hevolves, ?_⟩)
    rintro _ ⟨⟩
    rfl
  · exact .pure ⟨ht.refl, nofun⟩

theorem blockScope?_ends (ht : t.Nested) (hs : t.Known scope) (hroot : scope ≠ .global)
    (name : String) : (blockScope? scope name).Ends t fun inner? u =>
      t.Evolves u ∧ ∃ inner, inner? = some inner ∧ u.subScope? scope name = some inner := by
  obtain ⟨inner, u, heq, hcases⟩ := blockScope?_eq hs name
  constructor
  rw [heq]
  rcases hcases with ⟨rfl, hinner⟩ | hopens
  · exact ⟨ht.refl, inner, rfl, hinner⟩
  · exact ⟨hopens.evolve ht fun h => absurd h hroot, inner, rfl, hopens.opened⟩

end Declaring

variable {types : TypeTable} {t u : SymbolTable} {scope : ScopeId} {loops : ℕ}

/-! ## Statements -/

/-- Every block in the statement has its scope. -/
def Stmt.Housed (t : SymbolTable) (scope : ScopeId) : Stmt → Prop
  | whileLoop _ body _ => body.Housed t scope
  | ifThen _ thenBranch _ => thenBranch.Housed t scope
  | ifThenElse _ thenBranch elseBranch _ =>
      thenBranch.Housed t scope ∧ elseBranch.Housed t scope
  | block statements openBrace => ∃ inner,
      t.subScope? scope (blockScopeName openBrace) = some inner ∧ AllHoused inner statements
  | _ => True
where
  AllHoused (scope : ScopeId) : List Stmt → Prop
    | [] => True
    | s :: ss => s.Housed t scope ∧ AllHoused scope ss

theorem Stmt.Housed.allHoused_iff {ss : List Stmt} :
    AllHoused t scope ss ↔ ∀ s ∈ ss, s.Housed t scope := by
  induction ss with
  | nil => simp [AllHoused]
  | cons s ss ih => simp [AllHoused, ih]

theorem Stmt.Housed.grow (h : t.Extends u) {s : Stmt} (hs : s.Housed t scope) :
    s.Housed u scope := by
  induction s using Stmt.tree_induction generalizing scope with
  | empty | breakLoop | assign | returnValue | varDecl | call => trivial
  | whileLoop condition body token ih => exact ih hs
  | ifThen condition thenBranch token ih => exact ih hs
  | ifThenElse condition thenBranch elseBranch token ihthen ihelse =>
      exact ⟨ihthen hs.1, ihelse hs.2⟩
  | block statements openBrace ih =>
      obtain ⟨inner, hinner, hall⟩ := hs
      refine ⟨inner, h.opened hinner, allHoused_iff.mpr fun s hmem => ?_⟩
      exact ih s hmem (allHoused_iff.mp hall s hmem)

/-- What a run from `t` leaves of the statements of a list. -/
def Stmt.AllEvolve (scope : ScopeId) (t : SymbolTable) (ss' : List Stmt) (u : SymbolTable) :
    Prop :=
  t.Evolves u ∧ ∀ s ∈ ss', s.Housed u scope

theorem Stmt.declareAll_ends {ss : List Stmt} {loops : ℕ} (ht : t.Nested) (hs : t.Known scope)
    (ih : ∀ s ∈ ss, ∀ {t : SymbolTable}, t.Nested → t.Known scope →
      (s.declare types scope loops).Ends t fun s' u => t.Evolves u ∧ s'.Housed u scope) :
    (Stmt.declare.declareAll types scope loops ss).Ends t (Stmt.AllEvolve scope t) := by
  induction ss generalizing t with
  | nil => exact .pure ⟨ht.refl, nofun⟩
  | cons s ss ihs =>
      unfold Stmt.declare.declareAll
      refine Declaring.Ends.seq (ih s (by simp) ht hs) ?_
      rintro s' u ⟨hevolves, hs'⟩
      refine Declaring.Ends.seq (ihs hevolves.nested (hevolves.known hs)
        fun s' hs' => ih s' (by simp [hs'])) ?_
      rintro ss' v ⟨hevolves', hss'⟩
      apply Declaring.Ends.pure
      exact ⟨hevolves.trans hevolves',
        List.forall_mem_cons.mpr ⟨hs'.grow hevolves'.toExtends, hss'⟩⟩

theorem Declaring.block_ends {ss : List Stmt} {openBrace : Token} (ht : t.Nested)
    (hs : t.Known scope) (hroot : scope ≠ .global)
    (ih : ∀ s ∈ ss, ∀ {t : SymbolTable} {scope : ScopeId}, t.Nested → t.Known scope →
      scope ≠ .global → (s.declare types scope loops).Ends t fun s' u =>
        t.Evolves u ∧ s'.Housed u scope) :
    (Declaring.block types scope loops openBrace ss).Ends t fun ss' u => t.Evolves u ∧
      ∃ inner, u.subScope? scope (Stmt.blockScopeName openBrace) = some inner ∧
        ∀ s ∈ ss', s.Housed u inner := by
  unfold Declaring.block
  refine Ends.seq (blockScope?_ends ht hs hroot _) ?_
  rintro _ u ⟨hevolves, inner, rfl, hinner⟩
  have hbelow := hevolves.nested.inner_ne_global hinner
  refine Ends.mono (Stmt.declareAll_ends hevolves.nested (hevolves.nested.known_inner hinner)
    fun s hs _ ht hk => ih s hs ht hk hbelow) ?_
  rintro ss' v ⟨hevolves', hss'⟩
  exact ⟨hevolves.trans hevolves', inner, hevolves'.opened hinner, hss'⟩

/-- Every run through a statement leaves its blocks with scopes. -/
theorem Stmt.declare_ends {s : Stmt} {loops : ℕ} (ht : t.Nested) (hs : t.Known scope)
    (hroot : scope ≠ .global) : (s.declare types scope loops).Ends t fun s' u =>
      t.Evolves u ∧ s'.Housed u scope := by
  induction s using Stmt.tree_induction generalizing t scope loops with
  | empty token => exact .pure ⟨ht.refl, trivial⟩
  | breakLoop token =>
      unfold Stmt.declare
      dsimp only
      exact .report_if (.pure ⟨ht.refl, trivial⟩)
  | whileLoop condition body token ih =>
      unfold Stmt.declare
      exact .seq (ih ht hs hroot) fun body' u hbody => .pure hbody
  | ifThen condition thenBranch token ih =>
      unfold Stmt.declare
      exact .seq (ih ht hs hroot) fun then' u hthen => .pure hthen
  | ifThenElse condition thenBranch elseBranch token ihthen ihelse =>
      unfold Stmt.declare
      refine Declaring.Ends.seq (ihthen ht hs hroot) ?_
      rintro then' u ⟨hevolves, hthen⟩
      refine Declaring.Ends.seq (ihelse hevolves.nested (hevolves.known hs) hroot) ?_
      rintro else' v ⟨hevolves', helse⟩
      apply Declaring.Ends.pure
      exact ⟨hevolves.trans hevolves', hthen.grow hevolves'.toExtends, helse⟩
  | block statements openBrace ih =>
      rw [declare_block]
      refine Declaring.Ends.seq (Declaring.block_ends ht hs hroot fun s hs _ _ ht hk hroot =>
        ih s hs ht hk hroot) ?_
      rintro ss' u ⟨hevolves, inner, hinner, hss'⟩
      apply Declaring.Ends.pure
      exact ⟨hevolves, inner, hinner, Stmt.Housed.allHoused_iff.mpr hss'⟩
  | assign target value => exact .pure ⟨ht.refl, trivial⟩
  | returnValue value? token => exact .pure ⟨ht.refl, trivial⟩
  | varDecl type name initializer? symbol? =>
      unfold Stmt.declare
      refine Declaring.Ends.seq (Declaring.newVariable?_ends ht _ type name) ?_
      rintro r u ⟨hevolves, -⟩
      cases r with
      | none => exact .pure ⟨hevolves, trivial⟩
      | some r => exact .pure ⟨hevolves, trivial⟩
  | call callee args openParen => exact .pure ⟨ht.refl, trivial⟩

/-! ## Functions -/

/-- A function that carries a symbol has a scope, and its body has a scope in that. -/
def FnDef.Housed (t : SymbolTable) (f : FnDef) : Prop := f.symbol?.isSome → ∃ outer inner,
  t.subScope? .global f.name.text = some outer ∧
  t.subScope? outer (Stmt.blockScopeName f.openBrace) = some inner ∧
  ∀ s ∈ f.body, s.Housed t inner

/-- If the definition is a function that carries a symbol, it has its scopes. -/
def Global.Housed (t : SymbolTable) : Global → Prop
  | function f => f.Housed t
  | var _ => True

/-- The definition is no function that carries a symbol. -/
def Global.IsNew : Global → Prop
  | function f => f.symbol? = none
  | var _ => True

theorem Global.Housed.grow (h : t.Extends u) {g : Global} (hg : g.Housed t) : g.Housed u := by
  cases g with
  | var v => trivial
  | function f =>
      intro hsome
      obtain ⟨outer, inner, houter, hinner, hbody⟩ := hg hsome
      exact ⟨outer, inner, h.opened houter, h.opened hinner, fun s hs => (hbody s hs).grow h⟩

theorem FnDef.declareParam_ends {function : String} {p : Param} (ht : t.Nested) :
    (declareParam types scope function p).Ends t fun _ u => t.Evolves u := by
  unfold declareParam
  apply Declaring.Ends.bind
  apply Declaring.Ends.ofExcept
  · intro type _
    refine Declaring.Ends.seq (Declaring.newSymbol?_ends ht _ p.name _) ?_
    rintro id? u ⟨hevolves, -⟩
    cases id? with
    | none => exact .report (.pure hevolves)
    | some id => exact .pure hevolves
  · exact .pure ht.refl

theorem FnDef.declareParams_ends {function : String} {ps : List Param} (ht : t.Nested) :
    (declareParams types scope function ps).Ends t fun _ u => t.Evolves u := by
  induction ps generalizing t with
  | nil => exact .pure ht.refl
  | cons p ps ih =>
      unfold declareParams
      refine Declaring.Ends.seq (declareParam_ends ht) ?_
      intro _ u hevolves
      refine Declaring.Ends.seq (ih hevolves.nested) ?_
      intro _ v hevolves'
      exact .pure (hevolves.trans hevolves')

/-- A function has a symbol exactly if its scope is answered. Its name and its body stay. -/
theorem FnDef.enter_ends {f : FnDef} (ht : t.Nested) (hnew : f.symbol? = none) :
    (f.enter types).Ends t fun r u => t.Evolves u ∧ r.1.name = f.name ∧ r.1.body = f.body ∧
      r.1.openBrace = f.openBrace ∧ (r.2 = none → r.1.symbol? = none) ∧
      ∀ scope, r.2 = some scope →
        r.1.symbol?.isSome ∧ u.subScope? .global f.name.text = some scope := by
  unfold enter
  refine Declaring.Ends.seq (Q := fun _ u => u = t) (.ofExcept (fun _ _ => rfl) rfl) ?_
  rintro returnType? _ rfl
  apply Declaring.Ends.bind
  apply Declaring.Ends.add?
  case hnone => exact fun _ => .report (.pure ⟨ht.refl, rfl, rfl, rfl, fun _ => hnew, nofun⟩)
  intro id u₁ hadd
  have hadds := SymbolTable.adds_of_addSymbol? hadd
  have hevolves₁ := hadds.evolve ht
  apply Declaring.Ends.bind
  apply Declaring.Ends.add?
  case hnone =>
    intro (hnone : u₁.addSubScope? .global f.name.text = none)
    obtain ⟨inner, hinner⟩ := hevolves₁.nested.root.addSubScope? hnone
    cases hinner.symm.trans (hadds.subScope?_eq_none ht)
  intro scope u₂ hadd
  have hopens : u₁.Opens .global f.name.text scope u₂ := SymbolTable.opens_of_addSubScope? hadd
  have hevolves₂ := hopens.evolve hevolves₁.nested fun _ => ⟨id, hadds.declared⟩
  refine Declaring.Ends.seq (Q := fun _ u => u₂.Evolves u) ?_ ?_
  · apply Declaring.Ends.add?
    · exact fun _ u hu => (SymbolTable.adds_of_addSymbol? hu).evolve hevolves₂.nested
    · exact fun _ => hevolves₂.nested.refl
  intro entry? u₃ hevolves₃
  refine .report_if (.seq (declareParams_ends hevolves₃.nested) ?_)
  rintro ⟨params, signature⟩ u₄ hevolves₄
  apply Declaring.Ends.bind
  apply Declaring.Ends.modify
  have hevolves : u₂.Evolves (u₄.setSignature id returnType? signature) :=
    (hevolves₃.trans hevolves₄).trans hevolves₄.nested.evolve_setSignature
  apply Declaring.Ends.pure
  refine ⟨(hevolves₁.trans hevolves₂).trans hevolves, rfl, rfl, rfl, nofun, ?_⟩
  rintro _ ⟨⟩
  exact ⟨rfl, hevolves.opened hopens.opened⟩

theorem FnDef.declare_ends {f : FnDef} (ht : t.Nested) (hnew : f.symbol? = none) :
    (f.declare types).Ends t fun f' u => t.Evolves u ∧ f'.Housed u := by
  rw [declare_eq]
  refine Declaring.Ends.seq (enter_ends ht hnew) ?_
  rintro ⟨f', scope?⟩ u ⟨hevolves, hname, -, -, hnone, hsome⟩
  cases scope? with
  | none =>
      apply Declaring.Ends.pure
      refine ⟨hevolves, fun hsymbol => ?_⟩
      rw [show f'.symbol? = none from hnone rfl] at hsymbol
      cases hsymbol
  | some scope =>
      obtain ⟨-, hscope⟩ := hsome scope rfl
      refine Declaring.Ends.seq (Declaring.block_ends hevolves.nested
        (hevolves.nested.known_inner hscope) (hevolves.nested.inner_ne_global hscope)
        fun _ _ _ _ => Stmt.declare_ends) ?_
      rintro body v ⟨hevolves', inner, hinner, hbody⟩
      apply Declaring.Ends.pure
      exact ⟨hevolves.trans hevolves', fun _ =>
        ⟨scope, inner, hname ▸ hevolves'.opened hscope, hinner, hbody⟩⟩

/-! ## Programs -/

theorem Global.declare_ends {g : Global} (ht : t.Nested) (hnew : g.IsNew) :
    (g.declare types).Ends t fun g' u => t.Evolves u ∧ g'.Housed u := by
  cases g with
  | function f =>
      unfold declare
      dsimp only
      rw [map_eq_pure_bind]
      exact .seq (FnDef.declare_ends ht hnew) fun f' u hf => .pure hf
  | var v =>
      unfold declare GlobalVar.declare
      dsimp only
      rw [map_eq_pure_bind]
      refine Declaring.Ends.bind (Declaring.Ends.seq (Declaring.newVariable?_ends ht _ _ _) ?_)
      rintro r u ⟨hevolves, -⟩
      cases r with
      | none => exact .pure ⟨hevolves, trivial⟩
      | some r => exact .pure ⟨hevolves, trivial⟩

theorem Global.declareAll_ends {gs : List Global} (ht : t.Nested) (hnew : ∀ g ∈ gs, g.IsNew) :
    (declareAll types gs).Ends t fun gs' u => t.Evolves u ∧ ∀ g ∈ gs', g.Housed u := by
  induction gs generalizing t with
  | nil =>
      unfold declareAll
      exact .pure ⟨ht.refl, by simp⟩
  | cons g gs ih =>
      unfold declareAll
      refine Declaring.Ends.seq (declare_ends ht (hnew g (by simp))) ?_
      rintro g' u ⟨hevolves, hg⟩
      refine Declaring.Ends.seq (ih hevolves.nested fun g hg => hnew g (by simp [hg])) ?_
      rintro gs' v ⟨hevolves', hgs⟩
      apply Declaring.Ends.pure
      exact ⟨hevolves.trans hevolves',
        List.forall_mem_cons.mpr ⟨hg.grow hevolves'.toExtends, hgs⟩⟩

theorem Global.SpelledBy.isNew {expr : Expr → List Token → Prop} {g : Global} {w : List Token}
    (h : g.SpelledBy expr w) : g.IsNew := by
  cases h with
  | function hf =>
      cases hf with
      | intro => exact rfl
  | var => trivial

theorem Program.isNew_of_source {source : String} {tokens : List Token} {p : Program}
    (hsource : Token.ofSource source = .ok tokens) (hp : Program.ofTokens tokens = .ok p) :
    ∀ g ∈ p.globals, g.IsNew := by
  obtain ⟨_, _, -, -, hspelled⟩ := exists_spelledBy hsource hp
  intro g hg
  obtain ⟨w, hw, -⟩ := Repeated.exists_of_mem hspelled hg
  exact hw.isNew

end ScriptFront
