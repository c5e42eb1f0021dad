import ScriptFront.Proofs.Program.CleanChecks
import ScriptFront.Proofs.Typing.Void

/-!
# Programs without values of type `void`

In the program of an artifact, hardly any expression whose value is taken has the type
`void`: there are comparisons of two of them, and sums of one with a string. No value of
this type is passed, tested or stored.
-/
namespace ScriptFront

variable {types : TypeTable} {symbols : SymbolTable}

namespace Global

/-- The values that are taken in the definition are sound. -/
def Sound (types : TypeTable) (g : Global) : Prop := ∀ u ∈ g.valueUses, u.Sound types

section
variable (h : symbols.Complete) (hl : types.HasLiterals) (hempty : types.VoidEmpty)
  (hstores : symbols.Stores types)
include h hl hempty hstores

theorem check_function_sound {f f' : FnDef} (hf : f.Declared types symbols f')
    (hstored : ∀ s ∈ f'.body, s.Stored types)
    (hnames : ∀ n ∈ f.names, n.text ≠ Symbol.returnValueName) :
    (f'.check types symbols).Leaves fun f'' => (function f'').Sound types := by
  cases hf with
  | intro htype houter hinner hreturns hparams hbody =>
      have hinside : ∀ s ∈ f.body, ∀ n ∈ s.names, n.text ≠ Symbol.returnValueName := by
        intro s hs n hn
        refine hnames n ?_
        unfold FnDef.names
        simp only [List.mem_cons, List.mem_append, Stmt.mem_namesAll]
        exact .inr (.inr (.inr ⟨s, hs, hn⟩))
      have hchecked := Stmt.checkAll_sound hstored (fun s hs _ hdecl hstored =>
        Stmt.check_sound h hl hempty hstores hreturns hdecl hstored (hinside s hs)) hbody
      unfold FnDef.check
      simp only [Option.bind_some, houter, hinner]
      exact hchecked.seq fun ss hss => .pure (Stmt.sound_valueUsesAll.mpr hss)

theorem checkAll_sound {gs gs' : List Global}
    (hgs : List.Forall₂ (Global.Declared types symbols) gs gs')
    (hstored : ∀ g ∈ gs', g.Stored types)
    (hnames : ∀ n ∈ gs.flatMap Global.names, n.text ≠ Symbol.returnValueName) :
    (checkAll types symbols gs').Leaves fun gs'' => ∀ g ∈ gs'', g.Sound types := by
  induction hgs with
  | nil => exact .pure (by simp)
  | @cons _ g' _ _ hg _ ih =>
      obtain ⟨hfirst, hrest⟩ := List.forall_mem_cons.mp hstored
      rw [List.flatMap_cons, List.forall_mem_append] at hnames
      have hhead : (g'.check types symbols).Leaves (Sound types) := by
        cases hg with
        | var htype => exact .pure (List.forall_mem_nil _)
        | @function f f' hf =>
            have hsymbol : f'.symbol?.isSome := by
              cases hf with
              | intro => rfl
            unfold check
            dsimp only
            rw [map_eq_pure_bind]
            exact (check_function_sound h hl hempty hstores hf (hfirst hsymbol) hnames.1).seq
              fun f'' hf'' => .pure hf''
      unfold checkAll
      refine hhead.seq fun g hg => (ih hrest hnames.2).seq fun gs hgs => ?_
      exact .pure (List.forall_mem_cons.mpr ⟨hg, hgs⟩)

end

end Global

namespace Program

variable {p : Program}

theorem isNew_cleanup (hnew : ∀ g ∈ p.globals, g.IsNew) :
    ∀ g ∈ p.cleanup.value.globals, g.IsNew := by
  intro g hg
  obtain ⟨g, hmem, rfl⟩ := Global.exists_of_mem_cleanupAll hg
  exact (hnew g hmem).cleanup

theorem names_ne_returnValueName {source : String} {tokens : List Token}
    (hsource : Token.ofSource source = .ok tokens) (hp : Program.ofTokens tokens = .ok p) :
    ∀ n ∈ p.names, n.text ≠ Symbol.returnValueName := by
  intro n hn
  obtain ⟨body, place, rfl, hbody, hspelled⟩ := exists_spelledBy hsource hp
  obtain ⟨hmem, hkind⟩ := hspelled.isNameIn hn
  exact (hbody n hmem).text_ne_returnValueName hkind

end Program

namespace Compilation

/-- Where the program of an artifact takes a value, the value has a type. That is `void`
only for an operand of an equality whose other operand is of type `void`, too, and for an
operand of a sum whose other operand is a string. -/
theorem artifact_sound {source : String} {a : Artifact}
    (h : (ofSource source).artifact? = some a) : ∀ u ∈ a.program.valueUses,
      ∃ t, u.value.type? = some t ∧
        (a.types.get? "void" = some t → u.place.TakesVoid a.types) := by
  obtain ⟨tokens, p, p', hsource, hp, hdeclare, hcheck, htypes⟩ := exists_of_artifact? h
  have hdeclared : (p.cleanup.value.declare .primitives).Leads .empty _ :=
    Program.declare_cleanup_leads hsource hp
  have hstored : (p.cleanup.value.declare .primitives).Leads .empty _ :=
    Program.declare_stores (Program.isNew_cleanup (Program.isNew_of_source hsource hp))
  obtain ⟨hcomplete, hglobals⟩ := hdeclared.of_clean hdeclare
  obtain ⟨hstores, hstored⟩ := hstored.of_clean hdeclare
  have hnames := Program.names_ne_returnValueName hsource hp
  rw [← p.names_cleanup] at hnames
  have hleaves : (p'.check .primitives a.symbols).Leaves fun q =>
      ∀ g ∈ q.globals, g.Sound .primitives :=
    (Global.checkAll_sound hcomplete TypeTable.hasLiterals_primitives
      TypeTable.voidEmpty_primitives hstores hglobals hstored hnames).seq fun gs hgs => .pure hgs
  unfold Reported.Leaves at hleaves
  rw [hcheck] at hleaves
  rw [htypes]
  intro u hu
  obtain ⟨g, hg, hu⟩ := List.mem_flatMap.mp hu
  exact hleaves rfl g hg u hu

/-- A call without a result beside a string. -/
theorem artifact_sound_of_call :
    let source := "void f()\x7b\x7d void g()\x7bstring s = f() + \"\"; while (f() == f());\x7d"
    ∃ a, (ofSource source).artifact? = some a ∧ ∀ u ∈ a.program.valueUses,
      ∃ t, u.value.type? = some t ∧
        (a.types.get? "void" = some t → u.place.TakesVoid a.types) := by
  intro source
  have h : (ofSource source).artifact?.isSome := by decide +kernel
  obtain ⟨a, ha⟩ := Option.isSome_iff_exists.mp h
  exact ⟨a, ha, artifact_sound ha⟩

/-- The type `void` is the type of an operand. -/
theorem exists_void_operand :
    ∃ a u t, (ofSource "void f()\x7b\x7d void g()\x7bstring s = \"a\" + f();\x7d").artifact? = some a ∧
      u ∈ a.program.valueUses ∧ u.value.type? = some t ∧ a.types.get? "void" = some t := by
  have h : (ofSource "void f()\x7b\x7d void g()\x7bstring s = \"a\" + f();\x7d").artifact?.any
      (fun a => a.program.valueUses.any fun u =>
        u.value.type? = some ⟨0⟩ ∧ a.types.get? "void" = some ⟨0⟩) := by
    decide +kernel
  obtain ⟨a, ha, hany⟩ := (Option.any_eq_true _ _).mp h
  obtain ⟨u, hu, htype⟩ := List.any_eq_true.mp hany
  obtain ⟨htype, hvoid⟩ := of_decide_eq_true htype
  exact ⟨a, u, ⟨0⟩, ha, hu, htype, hvoid⟩

end Compilation

end ScriptFront
