import ScriptFront.Proofs.Program.Alongside
import ScriptFront.Proofs.Program.Housed
import ScriptFront.Proofs.Typing.Stored

/-!
# Definitions with different names

If the names of all definitions are different, each is declared as if it were alone: it
reports the same, its name means the same, and nothing that is declared before or behind
it touches its scopes. In a program whose first analysis is clean, the names are different.
-/
namespace ScriptFront

variable {types : TypeTable} {t u v : SymbolTable}

/-! ## Clean definitions -/

theorem Declaring.Ends.and {α : Type} {m : Declaring α} {Q Q' : α → SymbolTable → Prop}
    (h : m.Ends t Q) (h' : m.Ends t Q') : m.Ends t fun a u => Q a u ∧ Q' a u :=
  ⟨h.post, h'.post⟩

theorem FnDef.enter_scope {f : FnDef} (ht : t.Nested)
    (hfree : t.local? .global f.name.text = none) :
    (f.enter types).Ends t fun r u => ∃ scope id, r.2 = some scope ∧
      u.local? scope Symbol.returnValueName = some id := by
  unfold enter
  refine Declaring.Ends.seq (Q := fun _ u => u = t) (.ofExcept (fun _ _ => rfl) rfl) ?_
  rintro returnType? _ rfl
  apply Declaring.Ends.bind
  apply Declaring.Ends.add?
  case hnone =>
    intro hnone
    have htaken := SymbolTable.addSymbol?_eq_none_iff.mp hnone ht.root
    dsimp only at htaken
    rw [hfree] at htaken
    cases htaken
  intro id u₁ hadd
  have hadds := SymbolTable.adds_of_addSymbol? hadd
  have hnested₁ := hadds.nested ht
  apply Declaring.Ends.bind
  apply Declaring.Ends.add?
  case hnone =>
    intro (hnone : u₁.addSubScope? .global f.name.text = none)
    obtain ⟨inner, hinner⟩ := hnested₁.root.addSubScope? hnone
    cases hinner.symm.trans (hadds.subScope?_eq_none ht)
  intro scope u₂ hadd
  have hopens : u₁.Opens .global f.name.text scope u₂ := SymbolTable.opens_of_addSubScope? hadd
  have hnested₂ := hopens.nested hnested₁ fun _ => ⟨id, hadds.declared⟩
  apply Declaring.Ends.bind
  apply Declaring.Ends.add?
  case hnone => exact fun hnone => absurd hnone hopens.addSymbol?_ne_none
  intro result u₃ hadd
  have hadds₃ := SymbolTable.adds_of_addSymbol? hadd
  refine .report_if (.seq (declareParams_ends (hadds₃.nested hnested₂)) ?_)
  rintro ⟨params, signature⟩ u₄ hevolves
  apply Declaring.Ends.bind
  apply Declaring.Ends.modify
  exact .pure ⟨scope, result, rfl, hevolves.declared hadds₃.declared⟩

theorem Global.declare_scope (types : TypeTable) {f : FnDef} (ht : t.Nested)
    (hfree : t.local? .global f.name.text = none) (hnew : f.symbol? = none) :
    ((function f).declare types).Ends t fun _ u => ∃ scope id,
      u.subScope? .global f.name.text = some scope ∧
      u.local? scope Symbol.returnValueName = some id := by
  rw [declare_function]
  refine Declaring.Ends.seq ((FnDef.enter_scope ht hfree).and (FnDef.enter_ends ht hnew)) ?_
  rintro ⟨f', _⟩ u ⟨⟨scope, id, rfl, hid⟩, hevolves, -, -, -, -, hsome⟩
  obtain ⟨-, hscope⟩ := hsome scope rfl
  refine Declaring.Ends.seq (Declaring.block_ends hevolves.nested
    (hevolves.nested.known_inner hscope) (hevolves.nested.inner_ne_global hscope)
    fun _ _ _ _ => Stmt.declare_ends) ?_
  rintro body v ⟨hevolves', -⟩
  exact .pure ⟨scope, id, hevolves'.opened hscope, hevolves'.declared hid⟩

theorem Global.evolves_declare (types : TypeTable) {g : Global} (ht : t.Nested)
    (hnew : g.IsNew) : t.Evolves (g.declare types t).value.2 :=
  (declare_ends ht hnew).post.1

/-- A clean run through a definition declares its name, which was free. -/
theorem Global.declare_leads_free {g : Global} (ht : t.Nested) (hnew : g.IsNew) :
    (g.declare types).Leads t fun _ u => t.local? .global g.name.text = none ∧
      ∃ id, u.local? .global g.name.text = some id := by
  cases g with
  | var v =>
      unfold declare GlobalVar.declare
      dsimp only
      rw [map_eq_pure_bind]
      apply Declaring.Leads.bind
      refine Declaring.Leads.seq (Declaring.newVariable?_leads _ v.type v.name) ?_
      rintro _ u ⟨resolved, id, rfl, -, hadds⟩
      exact .pure (.pure ⟨hadds.free, id, hadds.declared⟩)
  | function f =>
      have hfree : ((function f).declare types).Leads t
          fun _ _ => t.local? .global f.name.text = none := by
        rw [declare_function]
        apply Declaring.Leads.bind
        unfold FnDef.enter
        apply Declaring.Leads.bind
        apply Declaring.Leads.ofExcept
        intro result _
        refine Declaring.Leads.seq (Declaring.newSymbol?_leads _ f.name _) ?_
        rintro _ u (⟨rfl, -⟩ | ⟨id, rfl, hadds⟩)
        · exact .bind .report
        · exact fun _ _ => hadds.free
      intro hclean
      have hname := hfree hclean
      obtain ⟨scope, -, hscope, -⟩ := (declare_scope types ht hname hnew).post
      exact ⟨hname, (evolves_declare types ht hnew).nested.function hscope⟩

/-- The definitions have different names, none of which is declared in the table. -/
structure Global.Distinct (t : SymbolTable) (gs : List Global) : Prop where
  nodup : (gs.map fun g => g.name.text).Nodup
  free : ∀ g ∈ gs, t.local? .global g.name.text = none

theorem Global.declareAll_leads_distinct {gs : List Global} (ht : t.Nested)
    (hnew : ∀ g ∈ gs, g.IsNew) : (declareAll types gs).Leads t fun _ _ => Distinct t gs := by
  induction gs generalizing t with
  | nil => exact .pure ⟨List.nodup_nil, by simp⟩
  | cons g gs ih =>
      obtain ⟨hg, hgs⟩ := List.forall_mem_cons.mp hnew
      refine Declaring.Leads.seq ((declare_leads_free ht hg).and_ends (declare_ends ht hg)) ?_
      rintro g' u ⟨⟨hfree, id, hid⟩, hevolves, -⟩
      refine Declaring.Leads.seq (ih hevolves.nested hgs) ?_
      rintro gs' v ⟨hnodup, hrest⟩
      refine .pure ⟨List.nodup_cons.mpr ⟨?_, hnodup⟩, List.forall_mem_cons.mpr ⟨hfree, ?_⟩⟩
      · intro hmem
        obtain ⟨h, hh, hname⟩ := List.mem_map.mp hmem
        have hlater := hrest h hh
        rw [hname, hid] at hlater
        cases hlater
      · intro h hh
        cases hl : t.local? .global h.name.text with
        | none => rfl
        | some other => cases (hevolves.declared hl).symm.trans (hrest h hh)

/-! ## Each definition by itself -/

/-- What the name of the definition means when nothing else is declared. -/
def Global.meaning? (types : TypeTable) (g : Global) : Option Symbol.Meaning :=
  (g.declare types .empty).value.2.meaning? .global g.name.text

/-- What a definition reports when nothing else is declared. -/
def Global.faults (types : TypeTable) (g : Global) : List Diagnostic :=
  (g.declare types .empty).diagnostics

/-- The definition `g'` is left of `g` after a run from a table in which its name was free,
and what has been declared later, up to `u`, is confined to other names. -/
inductive Global.Placed (types : TypeTable) (u : SymbolTable) (g : Global) : Global → Prop
  | intro {t : SymbolTable} {names : List String} : t.Nested →
      t.local? .global g.name.text = none →
      (g.declare types t).value.2.Confined .global names u → g.name.text ∉ names →
      Placed types u g (g.declare types t).value.1

theorem Global.Fresh.isNew {N : String → Prop} {g : Global} (hg : g.Fresh N) : g.IsNew := by
  cases g with
  | function f => exact hg.1
  | var v => trivial

theorem Global.declare_free (types : TypeTable) {N : String → Prop} {g : Global} (ht : t.Nested)
    (hfree : t.local? .global g.name.text = none) (hg : g.Fresh N) :
    (g.declare types t).diagnostics = g.faults types ∧
      t.Confined .global [g.name.text] (g.declare types t).value.2 ∧
      (g.declare types t).value.2.meaning? .global g.name.text = g.meaning? types := by
  have hstart := SymbolTable.Beside.start_global ht SymbolTable.nested_empty hfree
    SymbolTable.local?_empty
  obtain ⟨hdiagnostics, hbeside, -⟩ := declare_alongside types hstart rfl rfl hg
  exact ⟨hdiagnostics, hbeside.left, hbeside.meaning?_eq (.global rfl rfl)⟩

namespace Global.Placed

variable {g g' : Global} {names : List String}

theorem later (h : g.Placed types u g') (hu : u.Confined .global names v)
    (hname : g.name.text ∉ names) : g.Placed types v g' := by
  cases h with
  | intro ht hfree hconfined hn =>
      exact .intro ht hfree (hconfined.trans hu) (List.mem_append.not.mpr (not_or.mpr ⟨hn, hname⟩))

theorem meaning?_eq (h : g.Placed types u g') {N : String → Prop} (hg : g.Fresh N) :
    u.meaning? .global g.name.text = g.meaning? types := by
  cases h with
  | intro ht hfree hconfined hn =>
      have hnested := (evolves_declare types ht hg.isNew).nested
      rw [hconfined.meaning?_eq hnested hnested.root fun _ => hn]
      exact (declare_free types ht hfree hg).2.2

end Global.Placed

/-- Definitions with different names are declared each as by itself. -/
theorem Global.declareAll_distinct {gs : List Global} (ht : t.Nested) (hgs : Distinct t gs)
    (hfresh : ∀ g ∈ gs, g.Fresh g.HasName) :
    (declareAll types gs t).diagnostics = gs.flatMap (faults types) ∧
      (declareAll types gs).Ends t fun gs' u => t.Evolves u ∧
        t.Confined .global (gs.map fun g => g.name.text) u ∧
        List.Forall₂ (Placed types u) gs gs' := by
  induction gs generalizing t with
  | nil => exact ⟨rfl, .pure ⟨ht.refl, .refl _ _ _, .nil⟩⟩
  | cons g gs ih =>
      obtain ⟨hg, hrest⟩ := List.forall_mem_cons.mp hfresh
      obtain ⟨hfree, hfrees⟩ := List.forall_mem_cons.mp hgs.free
      obtain ⟨hname, hnodup⟩ := List.nodup_cons.mp hgs.nodup
      obtain ⟨hdiagnostics, hconfined, -⟩ := declare_free types ht hfree hg
      have hevolves := evolves_declare types ht hg.isNew
      have hdistinct : Distinct (g.declare types t).value.2 gs := by
        refine ⟨hnodup, fun h hh => ?_⟩
        rw [hconfined.local_eq ht.root, hfrees h hh]
        rintro - hmem
        rw [List.mem_singleton] at hmem
        exact hname (List.mem_map.mpr ⟨h, hh, hmem⟩)
      obtain ⟨hdiagnostics', ⟨hevolves', hconfined', hplaced⟩⟩ :=
        ih hevolves.nested hdistinct hrest
      refine ⟨congrArg₂ (· ++ ·) hdiagnostics ?_, ⟨hevolves.trans hevolves',
        hconfined.trans hconfined', .cons (.intro ht hfree hconfined' hname) hplaced⟩⟩
      exact (List.append_nil _).trans hdiagnostics'

end ScriptFront
