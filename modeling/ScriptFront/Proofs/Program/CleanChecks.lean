import ScriptFront.Proofs.Program.CleanDeclarations
import ScriptFront.Proofs.Program.Housed
import ScriptFront.Proofs.Program.Resolved
import ScriptFront.Proofs.SymbolTable.Listing

/-!
# Cleanup does not change the analysis

Names are bound and expressions are typed alike against a table and the pruned one. The
second analysis finds in the pruned table the scope of every block that is left, so that it
goes through the clean program as through the other, and passes silently over what cleanup
deletes. So both analyses report of a program what they report of the clean one.
-/
namespace ScriptFront

open SymbolTable (Pruned)

variable {α β γ δ : Type} {φ : ScopeId → ScopeId} {t u : SymbolTable} {scope : ScopeId}
  {types : TypeTable}

/-! ## Expressions -/

theorem Expr.bindAll_congr {scope' : ScopeId} {es : List Expr}
    (h : ∀ e ∈ es, e.bindNames t scope = e.bindNames u scope') :
    bindNames.bindAll t scope es = bindNames.bindAll u scope' es := by
  induction es with
  | nil => rfl
  | cons e es ih =>
      unfold bindNames.bindAll
      rw [h e (by simp), ih fun e he => h e (by simp [he])]

theorem Expr.inferAll_congr {initializing? : Option SymbolId} {es : List Expr}
    (h : ∀ e ∈ es, e.infer types t initializing? = e.infer types u initializing?) :
    infer.inferAll types t initializing? es = infer.inferAll types u initializing? es := by
  induction es with
  | nil => rfl
  | cons e es ih =>
      unfold infer.inferAll
      rw [h e (by simp), ih fun e he => h e (by simp [he])]

namespace SymbolTable.Pruned

variable (h : Pruned φ u t)
include h

theorem bind_eq (preference : Preference) (i : Ident) (hs : u.Known scope) :
    i.bind t (φ scope) preference = i.bind u scope preference := by
  unfold Ident.bind
  rw [h.lookup?_eq _ _ hs]
  cases u.lookup? i.name preference scope with
  | none => rfl
  | some id =>
      dsimp only
      rw [h.symbol]
      cases u.symbol? id with
      | none => rfl
      | some symbol => rfl

theorem bindNames_eq (e : Expr) (hs : u.Known scope) :
    e.bindNames t (φ scope) = e.bindNames u scope := by
  induction e using Expr.tree_induction with
  | literal value token type? => rfl
  | ident i =>
      unfold Expr.bindNames
      rw [h.bind_eq _ _ hs]
  | unary op operand token type? ih =>
      unfold Expr.bindNames
      rw [ih]
  | binary op left right token type? ihleft ihright =>
      unfold Expr.bindNames
      rw [ihleft, ihright]
  | call callee args openParen type? ih =>
      unfold Expr.bindNames
      rw [h.bind_eq _ _ hs, Expr.bindAll_congr ih]

theorem valueType_eq (initializing? : Option SymbolId) (i : Ident) :
    i.valueType t initializing? = i.valueType u initializing? := by
  unfold Ident.valueType
  cases i.symbol? with
  | none => rfl
  | some id =>
      rw [Option.bind_some, Option.bind_some, h.symbol]
      cases u.symbol? id with
      | none => rfl
      | some symbol => rfl

theorem call_eq (callee : Ident) (args : List (Typed Expr)) :
    Typing.call types t callee args = Typing.call types u callee args := by
  unfold Typing.call
  cases callee.symbol? with
  | none => rfl
  | some id =>
      rw [Option.bind_some, Option.bind_some, h.symbol]
      cases u.symbol? id with
      | none => rfl
      | some symbol => rfl

theorem infer_eq (initializing? : Option SymbolId) (e : Expr) :
    e.infer types t initializing? = e.infer types u initializing? := by
  induction e using Expr.tree_induction with
  | literal value token type? => rfl
  | ident i =>
      unfold Expr.infer
      rw [h.valueType_eq]
  | unary op operand token type? ih =>
      unfold Expr.infer
      rw [ih]
  | binary op left right token type? ihleft ihright =>
      unfold Expr.infer
      rw [ihleft, ihright]
  | call callee args openParen type? ih =>
      unfold Expr.infer
      rw [Expr.inferAll_congr ih]
      simp only [h.call_eq]

/-! ## Parts of statements -/

theorem condition_eq (statement : String) (token : Token) (e : Expr) :
    Checking.condition types t statement token e =
      Checking.condition types u statement token e := by
  unfold Checking.condition
  rw [h.infer_eq]

theorem returnType?_eq (hs : u.Known scope) :
    Checking.returnType? t (φ scope) = Checking.returnType? u scope := by
  unfold Checking.returnType?
  rw [h.lookup?_eq _ _ hs]
  cases u.lookup? Symbol.returnValueName .any scope with
  | none => rfl
  | some id =>
      change (t.symbol? id).bind Symbol.type? = (u.symbol? id).bind Symbol.type?
      rw [h.symbol]
      cases u.symbol? id with
      | none => rfl
      | some symbol => rfl

theorem returned_eq (token : Token) (value? : Option Expr) (hs : u.Known scope) :
    Checking.returned types t (φ scope) token value? =
      Checking.returned types u scope token value? := by
  unfold Checking.returned
  rw [h.returnType?_eq hs]
  simp only [h.infer_eq]

theorem bindOptional_eq (value? : Option Expr) (hs : u.Known scope) :
    Stmt.check.bindOptional t (φ scope) value? = Stmt.check.bindOptional u scope value? := by
  cases value? with
  | none => rfl
  | some e =>
      unfold Stmt.check.bindOptional
      dsimp only
      rw [h.bindNames_eq e hs]

end SymbolTable.Pruned

/-! ## Statements -/

open Reported (Agrees)

namespace Stmt

theorem checkAll_of_isEmpty {ss : List Stmt} (ih : ∀ s ∈ ss, s.check types t scope = pure s) :
    check.checkAll types t scope ss = pure ss := by
  induction ss with
  | nil => rfl
  | cons s ss ihs =>
      unfold check.checkAll
      rw [ih s (by simp), ihs fun s hs => ih s (by simp [hs])]
      rfl

theorem check_of_isEmpty {s : Stmt} (hempty : s.cleanup.value.isEmpty) :
    s.check types t scope = pure s := by
  induction s using Stmt.tree_induction generalizing scope with
  | empty token => rfl
  | block statements openBrace ih =>
      unfold check
      cases t.subScope? scope (blockScopeName openBrace) with
      | none => rfl
      | some inner =>
          dsimp only
          rw [checkAll_of_isEmpty fun s hs => ih s hs (isEmpty_of_cleanupList hempty hs)]
          rfl
  | breakLoop | whileLoop | ifThen | ifThenElse | assign | returnValue | varDecl | call =>
      cases hempty

theorem checkAll_cleanup {ss : List Stmt}
    (hhoused : ∀ s ∈ (cleanup.cleanupList ss).value, s.Housed u scope)
    (ih : ∀ s ∈ ss, s.cleanup.value.Housed u scope →
      Agrees s.Cleans (s.cleanup.value.check types u scope) (s.check types t (φ scope))) :
    Agrees (AllClean ss) (check.checkAll types u scope (cleanup.cleanupList ss).value)
      (check.checkAll types t (φ scope) ss) := by
  induction ss with
  | nil => exact .pure ⟨rfl, rfl⟩
  | cons s ss ihs =>
      have hih := fun s hs => ih s (List.mem_cons_of_mem _ hs)
      by_cases hempty : s.cleanup.value.isEmpty
      · rw [cleanupList_cons_of_isEmpty hempty] at hhoused ⊢
        rw [check.checkAll, check_of_isEmpty hempty, pure_bind,
          ← bind_pure (check.checkAll types u _ _)]
        exact (ihs hhoused hih).bind fun _ _ hss => .pure (hss.skip hempty)
      · rw [cleanupList_cons hempty] at hhoused ⊢
        obtain ⟨hs, hss⟩ := List.forall_mem_cons.mp hhoused
        unfold check.checkAll
        exact (ih s (by simp) hs).bind fun _ _ hs => (ihs hss hih).bind fun _ _ hss =>
          .pure (.cons hempty hs hss)

theorem check_cleanup {s : Stmt} (h : Pruned φ u t) (hs : u.Known scope)
    (hhoused : s.cleanup.value.Housed u scope) :
    Agrees s.Cleans (s.cleanup.value.check types u scope) (s.check types t (φ scope)) := by
  induction s using Stmt.tree_induction generalizing scope with
  | empty token => exact .pure ⟨rfl, rfl⟩
  | breakLoop token => exact .pure ⟨rfl, rfl⟩
  | whileLoop condition body token ih =>
      exact .bind_eq (h.bindNames_eq _ hs) fun condition => (ih hs hhoused).bind fun _ _ hbody =>
        .bind_eq (h.condition_eq _ _ _) fun condition =>
          .pure ⟨congrArg (whileLoop condition · token) hbody.value, rfl⟩
  | ifThen condition thenBranch token ih =>
      exact .bind_eq (h.bindNames_eq _ hs) fun condition => (ih hs hhoused).bind fun _ _ hthen =>
        .bind_eq (h.condition_eq _ _ _) fun condition =>
          .pure ⟨congrArg (ifThen condition · token) hthen.value, rfl⟩
  | ifThenElse condition thenBranch elseBranch token ihthen ihelse =>
      exact .bind_eq (h.bindNames_eq _ hs) fun condition =>
        (ihthen hs hhoused.1).bind fun _ _ hthen => (ihelse hs hhoused.2).bind fun _ _ helse =>
          .bind_eq (h.condition_eq _ _ _) fun condition => .pure
            ⟨congrArg₂ (ifThenElse condition · · token) hthen.value helse.value, rfl⟩
  | block statements openBrace ih =>
      obtain ⟨inner, hinner, hall⟩ := hhoused
      have hclean : (block statements openBrace).cleanup.value =
          block (cleanup.cleanupList statements).value openBrace := rfl
      rw [hclean, check_block, check_block, h.opened hinner, hinner]
      exact (checkAll_cleanup (Housed.allHoused_iff.mp hall) fun s hs =>
        ih s hs (h.nested.known_inner hinner)).bind fun _ _ hss => .pure (hss.block openBrace)
  | assign target value =>
      exact .bind_eq (h.bind_eq _ _ hs) fun target => .bind_eq (h.bindNames_eq _ hs) fun value =>
        .bind_eq (h.valueType_eq _ _) fun expected? => .bind_eq (h.infer_eq _ _) fun r =>
          .bind_eq rfl fun _ => .pure ⟨rfl, rfl⟩
  | returnValue value? token =>
      exact .bind_eq (h.bindOptional_eq _ hs) fun value? =>
        .bind_eq (h.returned_eq _ _ hs) fun value? => .pure ⟨rfl, rfl⟩
  | varDecl type name initializer? symbol? =>
      cases symbol? with
      | none => exact .pure ⟨rfl, rfl⟩
      | some symbol =>
          cases initializer? with
          | none => exact .pure ⟨rfl, rfl⟩
          | some initializer =>
              refine .bind_eq (h.bindNames_eq _ hs) fun initializer => ?_
              cases type.resolved? with
              | none => exact .pure ⟨rfl, rfl⟩
              | some expected =>
                  exact .bind_eq (h.infer_eq _ _) fun r => .bind_eq rfl fun _ =>
                    .pure ⟨rfl, rfl⟩
  | call callee args openParen =>
      exact .bind_eq (h.bind_eq _ _ hs) fun callee =>
        .bind_eq (Expr.bindAll_congr fun e _ => h.bindNames_eq e hs) fun args =>
          .bind_eq (Expr.inferAll_congr fun e _ => h.infer_eq none e) fun args =>
            .bind_eq (h.call_eq _ _) fun _ => .pure ⟨rfl, rfl⟩

end Stmt

/-! ## Programs -/

theorem Global.IsNew.cleanup {g : Global} (h : g.IsNew) : g.cleanup.value.IsNew := by
  cases g with
  | function f => exact h
  | var v => trivial

theorem Global.check_cleanup {g : Global} (h : Pruned φ u t) (hhoused : g.cleanup.value.Housed u) :
    Agrees (fun a b => a = b.cleanup.value) (g.cleanup.value.check types u) (g.check types t) := by
  cases g with
  | var v => exact .pure rfl
  | function f =>
      have hclean : (function f).cleanup.value =
          function { f with body := (Stmt.cleanup.cleanupList f.body).value } := rfl
      have hsame (body : List Stmt) : FnDef.scope? u { f with body } = f.scope? u := rfl
      rw [hclean, check_function, check_function, hsame]
      by_cases hsome : f.symbol?.isSome
      · obtain ⟨outer, inner, houter, hinner, hbody⟩ := hhoused hsome
        have houter' := h.opened houter
        rw [h.root] at houter'
        have hscope : f.scope? u = some outer := (FnDef.scope?_of_isSome hsome).trans houter
        have hscope' : f.scope? t = some (φ outer) :=
          (FnDef.scope?_of_isSome hsome).trans houter'
        dsimp only at hinner ⊢
        rw [hscope, hscope']
        dsimp only
        rw [h.opened hinner, hinner]
        exact (Stmt.checkAll_cleanup hbody fun s _ =>
          Stmt.check_cleanup h (h.nested.known_inner hinner)).bind fun _ _ hss =>
            .pure (congrArg (fun body => function { f with body }) hss.value)
      · rw [FnDef.scope?_of_not_isSome hsome, FnDef.scope?_of_not_isSome hsome]
        exact .pure rfl

theorem Global.checkAll_cleanup {gs : List Global} (h : Pruned φ u t)
    (hhoused : ∀ g ∈ (cleanupAll gs).value, g.Housed u) :
    Agrees (fun a b => a = (cleanupAll b).value) (checkAll types u (cleanupAll gs).value)
      (checkAll types t gs) := by
  induction gs with
  | nil => exact .pure rfl
  | cons g gs ih =>
      obtain ⟨hg, hgs⟩ := List.forall_mem_cons.mp hhoused
      refine (check_cleanup h hg).bind ?_
      rintro _ g' rfl
      exact (ih hgs).bind fun _ _ hgs => .pure (congrArg (g'.cleanup.value :: ·) hgs)

theorem Program.check_cleanup (types : TypeTable) {p : Program} (h : Pruned φ u t)
    (hhoused : ∀ g ∈ p.cleanup.value.globals, g.Housed u) :
    Agrees (fun a b => a = b.cleanup.value) (p.cleanup.value.check types u) (p.check types t) :=
  (Global.checkAll_cleanup h hhoused).bind fun _ _ hgs => .pure (congrArg Program.mk hgs)

/-- Each of the two analyses reports the same of both programs, in the same order, and the
tables that the first one leaves have the same listing. -/
structure Program.SameAnalysis (types : TypeTable) (p q : Program) : Prop where
  declared : (p.declare types .empty).diagnostics = (q.declare types .empty).diagnostics
  listed : (p.declare types .empty).value.2.listing types =
    (q.declare types .empty).value.2.listing types
  checked :
    ((p.declare types .empty).value.1.check types (p.declare types .empty).value.2).diagnostics =
      ((q.declare types .empty).value.1.check types (q.declare types .empty).value.2).diagnostics

/-- The program of a source is analysed as the clean one is, whatever is wrong with it. -/
theorem Program.sameAnalysis_cleanup {source : String} {tokens : List Token} {p : Program}
    (types : TypeTable) (hsource : Token.ofSource source = .ok tokens)
    (hp : Program.ofTokens tokens = .ok p) : p.SameAnalysis types p.cleanup.value := by
  have hnew : ∀ g ∈ p.cleanup.value.globals, g.IsNew := by
    intro g hg
    obtain ⟨g, hmem, rfl⟩ := Global.exists_of_mem_cleanupAll hg
    exact (isNew_of_source hsource hp g hmem).cleanup
  have hhoused : ∀ g ∈ (p.cleanup.value.declare types .empty).value.1.globals,
      g.Housed (p.cleanup.value.declare types .empty).value.2 :=
    (Global.declareAll_ends SymbolTable.nested_empty hnew).post.2
  obtain ⟨hdiagnostics, φ, -, hpruned, hclean⟩ :=
    declare_cleanup types SymbolTable.pruned_empty p
  rw [hclean] at hhoused
  have hchecks := check_cleanup types hpruned hhoused
  rw [← hclean] at hchecks
  exact ⟨hdiagnostics.symm, hpruned.listing_eq types, hchecks.diagnostics.symm⟩

/-- Empty statements and blocks, one in another, before and behind what is wrong. -/
theorem Program.sameAnalysis_cleanup_of_empty_blocks :
    let source := "void f()\x7b;\x7b\x7b\x7d;\x7d int x; while (x) \x7b\x7b;\x7d\x7bx = true;\x7d\x7d\x7b\x7d\x7d"
    ∃ tokens p, Token.ofSource source = .ok tokens ∧ Program.ofTokens tokens = .ok p ∧
      p.cleanup.removed = 7 ∧ p.SameAnalysis .primitives p.cleanup.value := by
  intro source
  have hremoved : ((Token.ofSource source).bind Program.ofTokens).map
      (fun p => p.cleanup.removed) = .ok 7 := by decide +kernel
  obtain ⟨tokens, p, hsource, hp, hremoved⟩ := exists_of_source hremoved
  exact ⟨tokens, p, hsource, hp, hremoved, sameAnalysis_cleanup .primitives hsource hp⟩

end ScriptFront
