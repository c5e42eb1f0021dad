import ScriptFront.Program.Cleanup
import ScriptFront.Proofs.Diagnostic.Analyses
import ScriptFront.Proofs.Program.Parts
import ScriptFront.Proofs.SymbolTable.Pruned
import ScriptFront.Proofs.Tree.Induction

/-!
# Declarations of a clean program

The first analysis reports of a program what it reports of the clean program. A statement
that cleanup deletes declares nothing and reports nothing; all it does is to open scopes,
and these stay hollow. So the table of the clean program is that of the program without
some hollow scopes, all along the way.
-/
namespace ScriptFront

open SymbolTable (Keeps Pruned)

variable {α β γ δ : Type}

/-! ## Steps -/

namespace Declaring

variable {φ : ScopeId → ScopeId} {t t' u : SymbolTable} {scope : ScopeId}
  {m' : Declaring α} {m : Declaring β} {Q : (ScopeId → ScopeId) → SymbolTable → α → β → Prop}

/-- From the pruned table `u`, the run of `m'` reports what that of `m` reports from `t`. It
leaves a table with the scopes of `u`, which is again a pruned one. -/
def Follows (φ : ScopeId → ScopeId) (u t : SymbolTable) (m' : Declaring α) (m : Declaring β)
    (Q : (ScopeId → ScopeId) → SymbolTable → α → β → Prop) : Prop :=
  Reported.Agrees
    (fun a b => ∃ φ', Keeps φ u φ' a.2 ∧ Pruned φ' a.2 b.2 ∧ Q φ' a.2 a.1 b.1) (m' u) (m t)

namespace Follows

theorem pure {a : α} {b : β} (h : Pruned φ u t) (hQ : Q φ u a b) :
    Follows φ u t (Pure.pure a) (Pure.pure b) Q :=
  ⟨rfl, φ, .refl φ u, h, hQ⟩

theorem bind {f' : α → Declaring γ} {f : β → Declaring δ}
    {R : (ScopeId → ScopeId) → SymbolTable → γ → δ → Prop} (h : Follows φ u t m' m Q)
    (hf : ∀ φ' u' t' a b, Keeps φ u φ' u' → Pruned φ' u' t' → Q φ' u' a b →
      Follows φ' u' t' (f' a) (f b) R) : Follows φ u t (m' >>= f') (m >>= f) R := by
  obtain ⟨hdiagnostics, φ', hkeeps, hpruned, hQ⟩ := h
  obtain ⟨hdiagnostics', φ'', hkeeps', hpruned', hR⟩ := hf _ _ _ _ _ hkeeps hpruned hQ
  exact ⟨congrArg₂ (· ++ ·) hdiagnostics hdiagnostics', φ'', hkeeps.trans hkeeps', hpruned', hR⟩

theorem bind_pure {f' : α → γ} {f : β → δ}
    {R : (ScopeId → ScopeId) → SymbolTable → γ → δ → Prop} (h : Follows φ u t m' m Q)
    (hf : ∀ φ' u' a b, Q φ' u' a b → R φ' u' (f' a) (f b)) :
    Follows φ u t (m' >>= fun a => Pure.pure (f' a)) (m >>= fun b => Pure.pure (f b)) R :=
  h.bind fun _ _ _ _ _ _ hpruned hQ => .pure hpruned (hf _ _ _ _ hQ)

theorem step {φ' : ScopeId → ScopeId} {u' : SymbolTable} {f' : α → Declaring γ}
    {f : β → Declaring δ} {R : (ScopeId → ScopeId) → SymbolTable → γ → δ → Prop} {a : α} {b : β}
    (hm' : m' u = ⟨(a, u'), []⟩) (hm : m t = ⟨(b, t'), []⟩) (hkeeps : Keeps φ u φ' u')
    (h : Follows φ' u' t' (f' a) (f b) R) : Follows φ u t (m' >>= f') (m >>= f) R := by
  obtain ⟨hdiagnostics, φ'', hkeeps', hpruned, hR⟩ := h
  unfold Follows
  rw [bind_of_silent hm', bind_of_silent hm]
  exact ⟨hdiagnostics, φ'', hkeeps.trans hkeeps', hpruned, hR⟩

theorem lift_bind {x : Reported ε} {f' : ε → Declaring α} {f : ε → Declaring β}
    (h : Follows φ u t (f' x.value) (f x.value) Q) :
    Follows φ u t (StateT.lift x >>= f') (StateT.lift x >>= f) Q :=
  ⟨congrArg _ h.diagnostics, h.value⟩

theorem report_bind {fault : Fault} {token : Token} {f' : Unit → Declaring α}
    {f : Unit → Declaring β} (h : Follows φ u t (f' ()) (f ()) Q) :
    Follows φ u t (report fault token >>= f') (report fault token >>= f) Q :=
  lift_bind h

theorem report_if {fault : Fault} {token : Token} {c : Prop} [Decidable c]
    {f' : Unit → Declaring α} {f : Unit → Declaring β} (h : Follows φ u t (f' ()) (f ()) Q) :
    Follows φ u t (if c then report fault token >>= f' else f' ())
      (if c then report fault token >>= f else f ()) Q := by
  split_ifs
  · exact report_bind h
  · exact h

theorem setSignature {f' : Unit → Declaring α} {f : Unit → Declaring β} {id : SymbolId}
    {type? : Option TypeId} {params : List (String × Option TypeId)}
    (h : Follows φ (u.setSignature id type? params) (t.setSignature id type? params) (f' ())
      (f ()) Q) :
    Follows φ u t ((modifyThe SymbolTable fun u => u.setSignature id type? params) >>= f')
      ((modifyThe SymbolTable fun t => t.setSignature id type? params) >>= f) Q :=
  h

end Follows

/-! ## Names -/

/-- A symbol is added under the same number to both tables, or to none. -/
theorem Follows.addSymbol? {outer : ScopeId} {symbol : Symbol}
    {f' : Option SymbolId → Declaring α} {f : Option SymbolId → Declaring β} (h : Pruned φ u t)
    (hs : u.Known scope) (houter : φ scope = outer)
    (hnone : Follows φ u t (f' none) (f none) Q)
    (hsome : ∀ id u' t', u.Adds scope symbol id u' → t.Adds outer symbol id t' →
      Pruned φ u' t' → Follows φ u' t' (f' (some id)) (f (some id)) Q) :
    Follows φ u t ((add? fun u => u.addSymbol? scope symbol) >>= f')
      ((add? fun t => t.addSymbol? outer symbol) >>= f) Q := by
  subst houter
  have hiff : u.addSymbol? scope symbol = none ↔ t.addSymbol? (φ scope) symbol = none := by
    rw [SymbolTable.addSymbol?_eq_none_iff, SymbolTable.addSymbol?_eq_none_iff,
      h.declared _ hs, imp_iff_right hs, imp_iff_right (h.known hs)]
  cases hu : u.addSymbol? scope symbol with
  | none => exact .step (add?_of_none hu) (add?_of_none (hiff.mp hu)) (.refl φ u) hnone
  | some a =>
      obtain ⟨id, u'⟩ := a
      cases ht : t.addSymbol? (φ scope) symbol with
      | none =>
          rw [hiff.mpr ht] at hu
          cases hu
      | some b =>
          obtain ⟨id', t'⟩ := b
          have hadds := SymbolTable.adds_of_addSymbol? hu
          have hadds' := SymbolTable.adds_of_addSymbol? ht
          obtain ⟨rfl, hpruned⟩ := h.adds hadds hadds'
          exact .step (add?_of_some hu) (add?_of_some ht) (Pruned.keeps_of_adds hadds)
            (hsome id' u' t' hadds hadds' hpruned)

theorem addSymbol?_follows (h : Pruned φ u t) (hs : u.Known scope) (symbol : Symbol) :
    Follows φ u t (add? fun u => u.addSymbol? scope symbol)
      (add? fun t => t.addSymbol? (φ scope) symbol) fun _ _ a b => a = b := by
  rw [← bind_pure (add? fun u => u.addSymbol? scope symbol),
    ← bind_pure (add? fun t => t.addSymbol? (φ scope) symbol)]
  exact .addSymbol? h hs rfl (.pure h rfl) fun _ _ _ _ _ h => .pure h rfl

theorem newVariable?_follows (types : TypeTable) (h : Pruned φ u t) (hs : u.Known scope)
    (kind : SymbolKind) (type : TypeName) (name : Token) :
    Follows φ u t (newVariable? types scope kind type name)
      (newVariable? types (φ scope) kind type name) fun _ _ a b => a = b := by
  unfold newVariable?
  apply Follows.lift_bind
  cases (Reported.ofExcept (types.resolveStorage type)).value with
  | none => exact .pure h rfl
  | some resolved =>
      refine (addSymbol?_follows h hs _).bind ?_
      rintro φ' u' t' symbol? _ - h rfl
      exact .report_if (.pure h rfl)

/-! ## Scopes -/

/-- The run from `t` answers `a` without a report, and does nothing but to open scopes. -/
def Pads (m : Declaring α) (t : SymbolTable) (a : α) : Prop :=
  ∃ t', m t = ⟨(a, t'), []⟩ ∧ t.Pads t'

theorem Pads.pure (ht : t.Nested) (a : α) : Pads (Pure.pure a) t a := ⟨t, rfl, ht.pads⟩

theorem Pads.step {a : α} {b : β} {m : Declaring α} {f : α → Declaring β}
    (hm : m t = ⟨(a, u), []⟩) (hu : t.Pads u) (hf : Pads (f a) u b) : Pads (m >>= f) t b := by
  obtain ⟨v, hv, hpads⟩ := hf
  exact ⟨v, (bind_of_silent hm).trans hv, hu.trans hpads⟩

/-- What the clean run leaves out only pads the table of the other. -/
theorem Follows.skip {a : β} {f : β → Declaring γ}
    {Q : (ScopeId → ScopeId) → SymbolTable → α → γ → Prop} (h : Pruned φ u t) (hm : Pads m t a)
    (hf : ∀ t', Pruned φ u t' → Follows φ u t' m' (f a) Q) : Follows φ u t m' (m >>= f) Q := by
  obtain ⟨t', hm, hpads⟩ := hm
  unfold Follows
  rw [bind_of_silent hm]
  exact hf t' (h.pads hpads)

theorem blockScope?_pads (ht : t.Nested) (hs : t.Known scope) (hroot : scope ≠ .global)
    (name : String) : ∃ inner t', blockScope? scope name t = ⟨(some inner, t'), []⟩ ∧
      t.Pads t' ∧ t'.subScope? scope name = some inner := by
  obtain ⟨inner, t', heq, ⟨rfl, hinner⟩ | hopens⟩ := blockScope?_eq hs name
  · exact ⟨inner, t', heq, ht.pads, hinner⟩
  · exact ⟨inner, t', heq, hopens.pads ht fun h => absurd h hroot, hopens.opened⟩

/-- The scopes have corresponding numbers and lie in the global scope, or there are none. -/
inductive SameInner (φ : ScopeId → ScopeId) (u : SymbolTable) :
    Option ScopeId → Option ScopeId → Prop
  | none : SameInner φ u none none
  | some {inner : ScopeId} : u.Known inner → inner ≠ .global →
      SameInner φ u (some inner) (some (φ inner))

theorem blockScope?_follows (h : Pruned φ u t) (hs : u.Known scope) (hroot : scope ≠ .global)
    (name : String) :
    Follows φ u t (blockScope? scope name) (blockScope? (φ scope) name) SameInner := by
  obtain ⟨outer, t', ht, hpads, houter⟩ :=
    blockScope?_pads h.whole (h.known hs) (h.ne_global hs hroot) name
  obtain ⟨inner, u', hu, hcases⟩ := blockScope?_eq hs name
  have hpruned := h.pads hpads
  unfold Follows
  rw [hu, ht]
  refine ⟨rfl, ?_⟩
  rcases hcases with ⟨rfl, hinner⟩ | hopens
  · obtain rfl := Option.some.inj ((hpruned.opened hinner).symm.trans houter)
    exact ⟨φ, .refl φ u', hpruned,
      .some (h.nested.known_inner hinner) (h.nested.inner_ne_global hinner)⟩
  · have hnested := hopens.nested h.nested fun h => absurd h hroot
    obtain ⟨φ', hkeeps, hpruned', rfl⟩ := hpruned.exists_opens hopens hnested houter
    have hinner := hopens.opened
    exact ⟨φ', hkeeps, hpruned',
      .some (hnested.known_inner hinner) (hnested.inner_ne_global hinner)⟩

end Declaring

open Declaring (Follows)

variable {types : TypeTable} {φ : ScopeId → ScopeId} {t u : SymbolTable} {scope : ScopeId}
  {loops : ℕ}

/-! ## Statements that cleanup deletes -/

theorem Stmt.cleanupList_cons_of_isEmpty {s : Stmt} (h : s.cleanup.value.isEmpty)
    (ss : List Stmt) :
    (cleanup.cleanupList (s :: ss)).value = (cleanup.cleanupList ss).value := by
  rw [cleanup.cleanupList, consUnlessEmpty, if_pos h]

theorem Stmt.cleanupList_cons {s : Stmt} (h : ¬ s.cleanup.value.isEmpty) (ss : List Stmt) :
    (cleanup.cleanupList (s :: ss)).value =
      s.cleanup.value :: (cleanup.cleanupList ss).value := by
  rw [cleanup.cleanupList, consUnlessEmpty, if_neg h]

theorem Stmt.isEmpty_of_cleanupList {ss : List Stmt} (h : (cleanup.cleanupList ss).value.isEmpty)
    {s : Stmt} (hs : s ∈ ss) : s.cleanup.value.isEmpty := by
  induction ss with
  | nil => cases hs
  | cons s' ss ih =>
      by_cases hempty : s'.cleanup.value.isEmpty
      · rw [cleanupList_cons_of_isEmpty hempty] at h
        rcases List.mem_cons.mp hs with rfl | hs
        · exact hempty
        · exact ih h hs
      · rw [cleanupList_cons hempty] at h
        cases h

theorem Stmt.declareAll_pads {ss : List Stmt} (ht : t.Nested) (hs : t.Known scope)
    (ih : ∀ s ∈ ss, ∀ {t : SymbolTable}, t.Nested → t.Known scope →
      (s.declare types scope loops).Pads t s) :
    (declare.declareAll types scope loops ss).Pads t ss := by
  induction ss generalizing t with
  | nil => exact .pure ht []
  | cons s ss ihs =>
      obtain ⟨u, hu, hpads⟩ := ih s (by simp) ht hs
      unfold declare.declareAll
      apply Declaring.Pads.step hu hpads
      obtain ⟨v, hv, hpads'⟩ := ihs hpads.nested (hpads.known hs) fun s hs => ih s (by simp [hs])
      exact .step hv hpads' (.pure hpads'.nested (s :: ss))

/-- A statement of which cleanup leaves nothing opens hollow scopes and is left as it is. -/
theorem Stmt.declare_pads {s : Stmt} (hempty : s.cleanup.value.isEmpty) (ht : t.Nested)
    (hs : t.Known scope) (hroot : scope ≠ .global) : (s.declare types scope loops).Pads t s := by
  induction s using Stmt.tree_induction generalizing t scope with
  | empty token => exact .pure ht _
  | block statements openBrace ih =>
      obtain ⟨inner, u, hu, hpads, hinner⟩ :=
        Declaring.blockScope?_pads ht hs hroot (blockScopeName openBrace)
      have hbelow := hpads.nested.inner_ne_global hinner
      obtain ⟨v, hv, hpads'⟩ := declareAll_pads hpads.nested (hpads.nested.known_inner hinner)
        fun s hs _ ht hk => ih s hs (isEmpty_of_cleanupList hempty hs) ht hk hbelow
      unfold declare
      exact .step hu hpads (.step hv hpads' (.pure hpads'.nested _))
  | breakLoop | whileLoop | ifThen | ifThenElse | assign | returnValue | varDecl | call =>
      cases hempty

/-! ## Clean statements -/

/-- The statement `s'` is `s` after cleanup, and is empty exactly if `origin` is after
cleanup. -/
structure Stmt.Cleans (origin s' s : Stmt) : Prop where
  value : s' = s.cleanup.value
  isEmpty : s'.isEmpty = origin.cleanup.value.isEmpty

/-- The statements `ss'` are `ss` after cleanup, and there are none exactly if there are none
of `origin` after cleanup. -/
structure Stmt.AllClean (origin ss' ss : List Stmt) : Prop where
  value : ss' = (cleanup.cleanupList ss).value
  isEmpty : ss'.isEmpty = (cleanup.cleanupList origin).value.isEmpty

namespace Stmt

theorem AllClean.skip {s : Stmt} {ss ss₁ ss₂ : List Stmt} (hempty : s.cleanup.value.isEmpty)
    (h : AllClean ss ss₁ ss₂) : AllClean (s :: ss) ss₁ (s :: ss₂) where
  value := by rw [cleanupList_cons_of_isEmpty hempty, h.value]
  isEmpty := by rw [cleanupList_cons_of_isEmpty hempty, h.isEmpty]

theorem AllClean.cons {s s₁ s₂ : Stmt} {ss ss₁ ss₂ : List Stmt}
    (hempty : ¬ s.cleanup.value.isEmpty) (hs : Cleans s s₁ s₂) (h : AllClean ss ss₁ ss₂) :
    AllClean (s :: ss) (s₁ :: ss₁) (s₂ :: ss₂) where
  value := by
    have hempty' : ¬ s₂.cleanup.value.isEmpty := by rwa [← hs.value, hs.isEmpty]
    rw [cleanupList_cons hempty', ← hs.value, h.value]
  isEmpty := by rw [cleanupList_cons hempty, List.isEmpty_cons, List.isEmpty_cons]

theorem AllClean.block {ss ss₁ ss₂ : List Stmt} (h : AllClean ss ss₁ ss₂) (openBrace : Token) :
    Cleans (block ss openBrace) (block ss₁ openBrace) (block ss₂ openBrace) where
  value := congrArg (Stmt.block · openBrace) h.value
  isEmpty := h.isEmpty

theorem declareAll_cleanup {ss : List Stmt} (h : Pruned φ u t) (hs : u.Known scope)
    (hroot : scope ≠ .global)
    (ih : ∀ s ∈ ss, ∀ {φ : ScopeId → ScopeId} {u t : SymbolTable}, Pruned φ u t →
      u.Known scope → Follows φ u t (s.cleanup.value.declare types scope loops)
        (s.declare types (φ scope) loops) fun _ _ => s.Cleans) :
    Follows φ u t (declare.declareAll types scope loops (cleanup.cleanupList ss).value)
      (declare.declareAll types (φ scope) loops ss) fun _ _ => AllClean ss := by
  induction ss generalizing φ u t with
  | nil => exact .pure h ⟨rfl, rfl⟩
  | cons s ss ihs =>
      have hrest := fun {φ u t} (h : Pruned φ u t) (hs : u.Known scope) =>
        ihs h hs fun s hs => ih s (by simp [hs])
      by_cases hempty : s.cleanup.value.isEmpty
      · rw [cleanupList_cons_of_isEmpty hempty]
        refine Follows.skip h
          (declare_pads hempty h.whole (h.known hs) (h.ne_global hs hroot)) fun t' h => ?_
        rw [← bind_pure (declare.declareAll _ _ _ _)]
        exact (hrest h hs).bind_pure fun _ _ _ _ hss => hss.skip hempty
      · rw [cleanupList_cons hempty]
        unfold declare.declareAll
        refine (ih s (by simp) h hs).bind ?_
        intro φ' u' t' s₁ s₂ hkeeps h hs₁
        obtain ⟨hs', hscope⟩ := hkeeps scope hs
        rw [← hscope]
        exact (hrest h hs').bind_pure fun _ _ _ _ hss => .cons hempty hs₁ hss

/-- A block has a scope in both runs, and in it the statements that are left. -/
theorem declareBlock_cleanup {ss : List Stmt} (h : Pruned φ u t) (hs : u.Known scope)
    (hroot : scope ≠ .global) (openBrace : Token)
    (ih : ∀ s ∈ ss, ∀ {φ : ScopeId → ScopeId} {u t : SymbolTable} {scope : ScopeId},
      Pruned φ u t → u.Known scope → scope ≠ .global →
        Follows φ u t (s.cleanup.value.declare types scope loops)
          (s.declare types (φ scope) loops) fun _ _ => s.Cleans) :
    Follows φ u t (Declaring.block types scope loops openBrace (cleanup.cleanupList ss).value)
      (Declaring.block types (φ scope) loops openBrace ss) fun _ _ => AllClean ss := by
  refine (Declaring.blockScope?_follows h hs hroot _).bind ?_
  rintro φ' u' t' _ _ - h (_ | ⟨hinner, hroot⟩)
  · exact .pure h ⟨rfl, rfl⟩
  · exact declareAll_cleanup h hinner hroot fun s hs _ _ _ h hk => ih s hs h hk hroot

theorem declare_cleanup {s : Stmt} (h : Pruned φ u t) (hs : u.Known scope)
    (hroot : scope ≠ .global) :
    Follows φ u t (s.cleanup.value.declare types scope loops) (s.declare types (φ scope) loops)
      fun _ _ => s.Cleans := by
  induction s using Stmt.tree_induction generalizing φ u t scope loops with
  | empty token => exact .pure h ⟨rfl, rfl⟩
  | breakLoop token =>
      unfold cleanup declare
      exact .report_if (.pure h ⟨rfl, rfl⟩)
  | whileLoop condition body token ih =>
      exact (ih h hs hroot).bind_pure fun _ _ _ _ hbody =>
        ⟨congrArg (whileLoop _ · token) hbody.value, rfl⟩
  | ifThen condition thenBranch token ih =>
      exact (ih h hs hroot).bind_pure fun _ _ _ _ hthen =>
        ⟨congrArg (ifThen _ · token) hthen.value, rfl⟩
  | ifThenElse condition thenBranch elseBranch token ihthen ihelse =>
      refine (ihthen h hs hroot).bind ?_
      intro φ' u' t' _ _ hkeeps h hthen
      obtain ⟨hs', hscope⟩ := hkeeps scope hs
      rw [← hscope]
      exact (ihelse h hs' hroot).bind_pure fun _ _ _ _ helse =>
        ⟨congrArg₂ (ifThenElse _ · · token) hthen.value helse.value, rfl⟩
  | block statements openBrace ih =>
      have hclean : (block statements openBrace).cleanup.value =
          block (cleanup.cleanupList statements).value openBrace := rfl
      rw [hclean, declare_block, declare_block]
      exact (declareBlock_cleanup h hs hroot openBrace fun s hs _ _ _ _ => ih s hs).bind_pure
        fun _ _ _ _ hss => hss.block openBrace
  | assign target value => exact .pure h ⟨rfl, rfl⟩
  | returnValue value? token => exact .pure h ⟨rfl, rfl⟩
  | varDecl type name initializer? symbol? =>
      refine (Declaring.newVariable?_follows types h hs .localVariable type name).bind ?_
      rintro φ' u' t' v? _ - h rfl
      cases v? with
      | none => exact .pure h ⟨rfl, rfl⟩
      | some v => exact .pure h ⟨rfl, rfl⟩
  | call callee args openParen => exact .pure h ⟨rfl, rfl⟩

end Stmt

/-! ## Functions -/

namespace FnDef

open Declaring (SameInner)

theorem declareParam_follows (h : Pruned φ u t) (hs : u.Known scope) (function : String)
    (p : Param) :
    Follows φ u t (declareParam types scope function p) (declareParam types (φ scope) function p)
      fun _ _ a b => a = b := by
  unfold declareParam
  apply Follows.lift_bind
  cases (Reported.ofExcept (types.resolveStorage p.type)).value with
  | none => exact .pure h rfl
  | some type =>
      refine (Declaring.addSymbol?_follows h hs _).bind ?_
      rintro φ' u' t' id? _ - h rfl
      cases id? with
      | none => exact .report_bind (.pure h rfl)
      | some id => exact .pure h rfl

theorem declareParams_follows (h : Pruned φ u t) (hs : u.Known scope) (function : String)
    (ps : List Param) :
    Follows φ u t (declareParams types scope function ps)
      (declareParams types (φ scope) function ps) fun _ _ a b => a = b := by
  induction ps generalizing φ u t with
  | nil => exact .pure h rfl
  | cons p ps ih =>
      unfold declareParams
      refine (declareParam_follows h hs function p).bind ?_
      rintro φ' u' t' p' _ hkeeps h rfl
      obtain ⟨hs', hscope⟩ := hkeeps scope hs
      rw [← hscope]
      refine (ih h hs').bind ?_
      rintro φ'' u'' t'' ps' _ - h rfl
      exact .pure h rfl

/-- A function is entered alike, whatever its body is. -/
theorem enter_follows (h : Pruned φ u t) (f : FnDef) (body : List Stmt) :
    Follows φ u t (enter types { f with body }) (enter types f) fun φ' u' a b =>
      a.1 = { b.1 with body } ∧ b.1.body = f.body ∧ SameInner φ' u' a.2 b.2 := by
  unfold enter
  apply Follows.lift_bind
  refine .addSymbol? h h.nested.root h.root (.report_bind (.pure h ⟨rfl, rfl, .none⟩)) ?_
  intro id u₁ t₁ hadds hadds' h₁
  -- Both tables have no scope of this name yet, not even a hollow one.
  obtain ⟨scope, u₂, hu₂, hopens⟩ := h₁.nested.root.opens (hadds.subScope?_eq_none h.nested)
  obtain ⟨outer, t₂, ht₂, hopens'⟩ := h₁.whole.root.opens (hadds'.subScope?_eq_none h.whole)
  have hnested := hopens.nested h₁.nested fun _ => ⟨id, hadds.declared⟩
  have hpads := hopens'.pads h₁.whole fun _ => ⟨id, hadds'.declared⟩
  have hroot : φ .global = .global := h.root
  obtain ⟨φ', hkeeps, h₂, rfl⟩ := (h₁.pads hpads).exists_opens hopens hnested
    (hroot.symm ▸ hopens'.opened)
  refine .step (Declaring.add?_of_some hu₂) (Declaring.add?_of_some ht₂) hkeeps ?_
  have hscope := hnested.known_inner hopens.opened
  refine (Declaring.addSymbol?_follows h₂ hscope _).bind ?_
  rintro φ₃ u₃ t₃ result? _ hkeeps₃ h₃ rfl
  obtain ⟨hscope₃, heq₃⟩ := hkeeps₃ scope hscope
  rw [← heq₃]
  refine .report_if ((declareParams_follows h₃ hscope₃ _ _).bind ?_)
  rintro φ₄ u₄ t₄ ⟨params, signature⟩ _ hkeeps₄ h₄ rfl
  obtain ⟨hscope₄, heq₄⟩ := hkeeps₄ scope hscope₃
  rw [← heq₄]
  exact .setSignature (.pure h₄.setSignature ⟨rfl, rfl, .some hscope₄
    (hnested.inner_ne_global hopens.opened)⟩)

end FnDef

/-! ## Programs -/

theorem Global.declare_cleanup (h : Pruned φ u t) (g : Global) :
    Follows φ u t (g.cleanup.value.declare types) (g.declare types) fun _ _ a b =>
      a = b.cleanup.value := by
  cases g with
  | function f =>
      have hclean : (function f).cleanup.value =
          function { f with body := (Stmt.cleanup.cleanupList f.body).value } := rfl
      rw [hclean, declare_function, declare_function]
      refine (FnDef.enter_follows h f _).bind ?_
      rintro φ' u' t' ⟨_, _⟩ ⟨f', _⟩ - h ⟨rfl, hbody, hscope⟩
      dsimp only at hbody hscope ⊢
      cases hscope with
      | none =>
          apply Follows.pure h
          rw [cleanup, hbody]
          rfl
      | some hscope hroot =>
          rw [hbody]
          exact (Stmt.declareBlock_cleanup h hscope hroot f'.openBrace
            fun _ _ _ _ _ _ => Stmt.declare_cleanup).bind_pure fun _ _ _ _ hss =>
              congrArg (fun body => function { f' with body }) hss.value
  | var v =>
      have hvariable :=
        Declaring.newVariable?_follows types h h.nested.root .globalVariable v.type v.name
      rw [h.root] at hvariable
      unfold cleanup declare GlobalVar.declare
      simp only [map_eq_pure_bind, bind_assoc]
      refine hvariable.bind ?_
      rintro φ' u' t' v? _ - h rfl
      cases v? with
      | none => exact .pure h rfl
      | some v => exact .pure h rfl

theorem Global.declareAll_cleanup (h : Pruned φ u t) (gs : List Global) :
    Follows φ u t (declareAll types (cleanupAll gs).value) (declareAll types gs) fun _ _ a b =>
      a = (cleanupAll b).value := by
  induction gs generalizing φ u t with
  | nil => exact .pure h rfl
  | cons g gs ih =>
      unfold declareAll
      refine (declare_cleanup h g).bind ?_
      rintro φ' u' t' _ g' - h rfl
      exact (ih h).bind_pure fun _ _ _ _ hgs => congrArg (g'.cleanup.value :: ·) hgs

/-- The first analysis reports the same of a program and of the clean one. It leaves the
clean form of what it leaves of the program, and a table without some hollow scopes. -/
theorem Program.declare_cleanup (types : TypeTable) (h : Pruned φ u t) (p : Program) :
    Follows φ u t (p.cleanup.value.declare types) (p.declare types) fun _ _ a b =>
      a = b.cleanup.value :=
  (Global.declareAll_cleanup h p.globals).bind_pure fun _ _ _ _ hgs => congrArg Program.mk hgs

end ScriptFront
