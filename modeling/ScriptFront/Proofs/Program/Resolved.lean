import ScriptFront.Compilation
import ScriptFront.Proofs.Program.Names
import ScriptFront.Proofs.Typing.Resolved

/-!
# What a compilation leaves

The artifact of a compilation has passed both analyses without a report. Cleanup takes
statements away and adds none, so that the names of the program are still names of
its source, and everything that is left of it is resolved.
-/
namespace ScriptFront

variable {types : TypeTable} {symbols : SymbolTable}

/-! ## Resolved programs -/

/-- The types of the function are resolved, and all of its statements are. -/
structure FnDef.Resolved (types : TypeTable) (symbols : SymbolTable) (f : FnDef) : Prop where
  returnType : f.returnType.Resolved types
  params : ∀ p ∈ f.params, p.type.Resolved types
  body : ∀ s ∈ f.body, s.Resolved types symbols

inductive Global.Resolved (types : TypeTable) (symbols : SymbolTable) : Global → Prop
  | function {f : FnDef} : f.Resolved types symbols → Resolved types symbols (.function f)
  | var {v : GlobalVar} : v.type.Resolved types → Resolved types symbols (.var v)

def Program.Resolved (types : TypeTable) (symbols : SymbolTable) (p : Program) : Prop :=
  ∀ g ∈ p.globals, g.Resolved types symbols

/-! ## Names after cleanup -/

/-- What is left of a list of statements is left of one of them. -/
theorem Stmt.exists_of_mem_cleanupList {ss : List Stmt} {s' : Stmt}
    (h : s' ∈ (cleanup.cleanupList ss).value) : ∃ s ∈ ss, s' = s.cleanup.value := by
  induction ss with
  | nil => cases h
  | cons s ss ih =>
      unfold cleanup.cleanupList consUnlessEmpty at h
      have hrest : s' ∈ (cleanup.cleanupList ss).value → ∃ s₁ ∈ s :: ss, s' = s₁.cleanup.value := by
        intro hmem
        obtain ⟨s₁, hs₁, heq⟩ := ih hmem
        exact ⟨s₁, List.mem_cons_of_mem _ hs₁, heq⟩
      split_ifs at h
      · exact hrest h
      · rcases List.mem_cons.mp h with rfl | h
        · exact ⟨s, by simp, rfl⟩
        · exact hrest h

theorem Stmt.Declares.of_cleanup {s : Stmt} {name : Token} (h : s.cleanup.value.Declares name) :
    s.Declares name := by
  induction s using Stmt.tree_induction with
  | empty | breakLoop | assign | returnValue | varDecl | call => exact h
  | whileLoop condition body token ih =>
      cases h with
      | whileLoop h => exact .whileLoop (ih h)
  | ifThen condition thenBranch token ih =>
      cases h with
      | ifThen h => exact .ifThen (ih h)
  | ifThenElse condition thenBranch elseBranch token ihthen ihelse =>
      cases h with
      | thenBranch h => exact .thenBranch (ihthen h)
      | elseBranch h => exact .elseBranch (ihelse h)
  | block statements openBrace ih =>
      cases h with
      | block hmem h =>
          obtain ⟨s, hs, rfl⟩ := exists_of_mem_cleanupList hmem
          exact .block hs (ih s hs h)

theorem Global.exists_of_mem_cleanupAll {gs : List Global} {g' : Global}
    (h : g' ∈ (cleanupAll gs).value) : ∃ g ∈ gs, g' = g.cleanup.value := by
  induction gs with
  | nil => cases h
  | cons g gs ih =>
      rcases List.mem_cons.mp h with rfl | h
      · exact ⟨g, by simp, rfl⟩
      · obtain ⟨g₁, hg₁, heq⟩ := ih h
        exact ⟨g₁, List.mem_cons_of_mem _ hg₁, heq⟩

theorem Global.Declares.of_cleanup {g : Global} {name : Token}
    (h : g.cleanup.value.Declares name) : g.Declares name := by
  cases g with
  | var v => exact h
  | function f =>
      cases h with
      | function heq => exact .function heq
      | param hp heq => exact .param hp heq
      | body hmem h =>
          obtain ⟨s, hs, rfl⟩ := Stmt.exists_of_mem_cleanupList hmem
          exact .body hs h.of_cleanup

theorem Program.Declares.of_cleanup {p : Program} {name : Token}
    (h : p.cleanup.value.Declares name) : p.Declares name := by
  obtain ⟨g', hg', h⟩ := h
  obtain ⟨g, hg, rfl⟩ := Global.exists_of_mem_cleanupAll hg'
  exact ⟨g, hg, h.of_cleanup⟩

theorem Program.name_ne_returnValueName_of_cleanup {source : String} {tokens : List Token}
    {p : Program} (hsource : Token.ofSource source = .ok tokens)
    (hp : Program.ofTokens tokens = .ok p) {g : Global} (hg : g ∈ p.cleanup.value.globals)
    {name : Token} (hname : g.Declares name) : name.text ≠ Symbol.returnValueName := by
  obtain ⟨g, hmem, hname⟩ := Declares.of_cleanup ⟨g, hg, hname⟩
  exact name_ne_returnValueName hsource hp hmem hname

/-- A clean first analysis of what cleanup has left of a program declares all of it. -/
theorem Program.declare_cleanup_leads {source : String} {tokens : List Token} {p : Program}
    (hsource : Token.ofSource source = .ok tokens) (hp : Program.ofTokens tokens = .ok p) :
    (p.cleanup.value.declare types).Leads .empty fun p' u =>
      u.Complete ∧ List.Forall₂ (Global.Declared types u) p.cleanup.value.globals p'.globals :=
  declare_leads fun _ hg _ hname => name_ne_returnValueName_of_cleanup hsource hp hg hname

/-! ## Analysed programs -/

theorem Param.resolved_of_declared {ps ps' : List Param}
    (h : List.Forall₂ (Param.Declared types) ps ps') : ∀ p ∈ ps', p.type.Resolved types := by
  induction h with
  | nil => simp
  | cons hp _ ih =>
      cases hp with
      | intro htype => exact List.forall_mem_cons.mpr ⟨⟨_, htype, rfl⟩, ih⟩

section
variable (h : symbols.Complete) (hl : types.HasLiterals)
include h hl

theorem FnDef.check_leaves {f f' : FnDef} (hf : f.Declared types symbols f') :
    (f'.check types symbols).Leaves (FnDef.Resolved types symbols) := by
  cases hf with
  | intro htype houter hinner hreturns hparams hbody =>
      unfold check
      simp only [Option.bind_some, houter, hinner]
      refine (Stmt.checkAll_leaves (fun s _ _ => Stmt.check_leaves h hl hreturns) hbody).seq
        fun ss hss => .pure ⟨⟨_, htype, rfl⟩, Param.resolved_of_declared hparams, hss⟩

theorem Global.checkAll_leaves {gs gs' : List Global}
    (hgs : List.Forall₂ (Global.Declared types symbols) gs gs') :
    (Global.checkAll types symbols gs').Leaves
      fun gs'' => ∀ g ∈ gs'', g.Resolved types symbols := by
  induction hgs with
  | nil => exact .pure (by simp)
  | @cons _ g' _ _ hg _ ih =>
      unfold checkAll
      have hhead : (g'.check types symbols).Leaves (Global.Resolved types symbols) := by
        cases hg with
        | function hf =>
            unfold check
            dsimp only
            rw [map_eq_pure_bind]
            exact (FnDef.check_leaves h hl hf).seq fun f'' hf'' => .pure (.function hf'')
        | var htype => exact .pure (.var ⟨_, htype, rfl⟩)
      exact hhead.seq fun g hg => ih.seq fun gs hgs => .pure (List.forall_mem_cons.mpr ⟨hg, hgs⟩)

end

/-! ## Compilations -/

namespace Compilation

/-- An artifact has gone through all stages, and none of them has found a fault. -/
theorem exists_of_artifact? {source : String} {a : Artifact}
    (h : (ofSource source).artifact? = some a) : ∃ tokens p p',
      Token.ofSource source = .ok tokens ∧ Program.ofTokens tokens = .ok p ∧
      p.cleanup.value.declare .primitives .empty = ⟨(p', a.symbols), []⟩ ∧
      p'.check .primitives a.symbols = ⟨a.program, []⟩ ∧ a.types = .primitives := by
  unfold ofSource at h
  cases hsource : Token.ofSource source with
  | error d =>
      rw [hsource] at h
      cases h
  | ok tokens =>
      rw [hsource] at h
      dsimp only at h
      cases hp : Program.ofTokens tokens with
      | error d =>
          rw [hp] at h
          cases h
      | ok p =>
          rw [hp] at h
          unfold ofProgram StateT.run at h
          dsimp only at h
          rcases hdeclare : p.cleanup.value.declare .primitives .empty with ⟨⟨p', symbols⟩, ds⟩
          rw [hdeclare] at h
          split_ifs at h with hclean hchecked
          · cases h
            refine ⟨tokens, p, p', rfl, hp, ?_, ?_, rfl⟩
            · rw [hdeclare]
              exact Reported.ext rfl (List.isEmpty_iff.mp hclean)
            · exact Reported.ext rfl (List.isEmpty_iff.mp hchecked)
          · cases h
          · cases h

/-- The artifact of a compilation is resolved. -/
theorem artifact_resolved {source : String} {a : Artifact}
    (h : (ofSource source).artifact? = some a) : a.program.Resolved a.types a.symbols := by
  obtain ⟨tokens, p, p', hsource, hp, hdeclare, hcheck, htypes⟩ := exists_of_artifact? h
  have hleads : (p.cleanup.value.declare .primitives).Leads .empty _ :=
    Program.declare_cleanup_leads hsource hp
  unfold Declaring.Leads at hleads
  rw [hdeclare] at hleads
  obtain ⟨hcomplete, hglobals⟩ := hleads rfl
  have hleaves := Global.checkAll_leaves hcomplete TypeTable.hasLiterals_primitives hglobals
  have hprogram : (p'.check .primitives a.symbols).Leaves
      (Program.Resolved .primitives a.symbols) :=
    hleaves.seq fun gs hgs => .pure hgs
  unfold Reported.Leaves at hprogram
  rw [hcheck] at hprogram
  rw [htypes]
  exact hprogram rfl

/-- A function that calls itself with a sum, and a variable outside. -/
theorem artifact_resolved_of_call :
    ∃ a, (ofSource "int x; int f(int y)\x7bint z = f(y + x); return -z;\x7d").artifact? = some a ∧
      a.program.Resolved a.types a.symbols := by
  have h : (ofSource "int x; int f(int y)\x7bint z = f(y + x); return -z;\x7d").artifact?.isSome := by
    decide +kernel
  obtain ⟨a, ha⟩ := Option.isSome_iff_exists.mp h
  exact ⟨a, ha, artifact_resolved ha⟩

end Compilation

end ScriptFront
