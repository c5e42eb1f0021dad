import Mathlib
import ScriptFront.Proofs.Program.Names
import ScriptFront.Proofs.Typing.Statements

/-!
# The second analysis decides the typing rules

If the first analysis of a program has nothing to report, the second reports
nothing exactly if all statements of the program are well typed.
-/
namespace ScriptFront

variable {types : TypeTable} {symbols : SymbolTable}

section
variable (h : symbols.Complete) (hl : types.HasLiterals)
include h hl

theorem FnDef.check_clean_iff {f f' : FnDef} (hf : f.Declared types symbols f') :
    (f'.check types symbols).diagnostics = [] ↔ f.WellTyped types symbols := by
  cases hf with
  | intro htype houter hinner hreturns _ hbody =>
      unfold check
      simp only [Option.bind_some, houter, hinner, Reported.diagnostics_bind,
        Reported.diagnostics_pure, List.append_nil]
      rw [Stmt.checkAll_clean_iff (fun s _ _ => Stmt.check_clean_iff h hl hreturns) hbody]
      constructor
      · exact .intro htype houter hinner
      · rintro ⟨htype', houter', hinner', hwell⟩
        obtain rfl := Option.some.inj (htype.symm.trans htype')
        obtain rfl := Option.some.inj (houter.symm.trans houter')
        obtain rfl := Option.some.inj (hinner.symm.trans hinner')
        exact hwell

theorem Global.checkAll_clean_iff {gs gs' : List Global}
    (hgs : List.Forall₂ (Global.Declared types symbols) gs gs') :
    (Global.checkAll types symbols gs').diagnostics = [] ↔
      ∀ f, Global.function f ∈ gs → f.WellTyped types symbols := by
  induction hgs with
  | nil => simp [checkAll]
  | cons hg _ ih =>
      unfold checkAll
      simp only [Reported.diagnostics_bind, Reported.diagnostics_pure, List.append_nil,
        List.append_eq_nil_iff, ih]
      cases hg with
      | function hf =>
          have hhead := FnDef.check_clean_iff h hl hf
          simp [check, hhead]
      | var => simp [check]

theorem Program.check_clean_iff_of_declared {p p' : Program}
    (hp : List.Forall₂ (Global.Declared types symbols) p.globals p'.globals) :
    (p'.check types symbols).diagnostics = [] ↔ p.WellTyped types symbols := by
  unfold check
  rw [Reported.diagnostics_bind, Reported.diagnostics_pure, List.append_nil]
  exact Global.checkAll_clean_iff h hl hp

end

/-- The program of a source whose declarations are in order is checked without a
report exactly if all of its statements are well typed. -/
theorem Program.check_clean_iff_wellTyped {source : String} {tokens : List Token}
    {p p' : Program} {symbols : SymbolTable} (hsource : Token.ofSource source = .ok tokens)
    (hp : Program.ofTokens tokens = .ok p)
    (hdeclare : (p.declare .primitives).run .empty = ⟨(p', symbols), []⟩) :
    (p'.check .primitives symbols).diagnostics = [] ↔ p.WellTyped .primitives symbols := by
  have hleads := @declare_leads .primitives p
    fun g hg name hname => name_ne_returnValueName hsource hp hg hname
  change p.declare .primitives .empty = _ at hdeclare
  unfold Declaring.Leads at hleads
  rw [hdeclare] at hleads
  obtain ⟨hcomplete, hglobals⟩ := hleads rfl
  exact check_clean_iff_of_declared hcomplete TypeTable.hasLiterals_primitives hglobals

/-- Calls, a block, a loop and operators of several types; and the same program with a string
for an argument that has to be a number. -/
theorem Program.wellTyped_of_calls :
    let source (argument : String) := "int twice(int n)\x7breturn n + n;\x7d " ++
      "void f(string s)\x7bint x = 1; \x7bx = twice(" ++ argument ++
      ") % 3; while ((x <= 4) && !(s == \"\")) s = s + twice(-x);\x7d\x7d"
    (∃ tokens p p' symbols, Token.ofSource (source "x * 2") = .ok tokens ∧
      Program.ofTokens tokens = .ok p ∧
      (p.declare .primitives).run .empty = ⟨(p', symbols), []⟩ ∧
      p.WellTyped .primitives symbols) ∧
    ∃ tokens p p' symbols, Token.ofSource (source "s") = .ok tokens ∧
      Program.ofTokens tokens = .ok p ∧
      (p.declare .primitives).run .empty = ⟨(p', symbols), []⟩ ∧
      ¬ p.WellTyped .primitives symbols := by
  intro source
  have hreports : ["x * 2", "s"].map (fun argument =>
      ((Token.ofSource (source argument)).bind Program.ofTokens).map fun p =>
        (((p.declare .primitives).run .empty).diagnostics,
          (((p.declare .primitives).run .empty).value.1.check .primitives
            ((p.declare .primitives).run .empty).value.2).diagnostics)) =
      [.ok ([], []), .ok ([], [⟨.argumentTypeMatchError 1 "int" "string", ⟨1, 72⟩⟩])] := by
    decide +kernel
  obtain ⟨hnumber, hrest⟩ := List.cons.inj hreports
  obtain ⟨hstring, -⟩ := List.cons.inj hrest
  constructor
  · obtain ⟨tokens, p, hsource, hp, hboth⟩ := exists_of_source hnumber
    obtain ⟨hsilent, hclean⟩ := Prod.mk.inj hboth
    have hdeclare : (p.declare .primitives).run .empty = ⟨_, []⟩ :=
      congrArg (Reported.mk _) hsilent
    exact ⟨tokens, p, _, _, hsource, hp, hdeclare,
      (check_clean_iff_wellTyped hsource hp hdeclare).mp hclean⟩
  · obtain ⟨tokens, p, hsource, hp, hboth⟩ := exists_of_source hstring
    obtain ⟨hsilent, hfault⟩ := Prod.mk.inj hboth
    have hdeclare : (p.declare .primitives).run .empty = ⟨_, []⟩ :=
      congrArg (Reported.mk _) hsilent
    refine ⟨tokens, p, _, _, hsource, hp, hdeclare, fun hwell => ?_⟩
    have hclean := (check_clean_iff_wellTyped hsource hp hdeclare).mpr hwell
    cases hfault.symm.trans hclean

end ScriptFront
