import ScriptFront.Proofs.Program.Mirror
import ScriptFront.Proofs.Program.SetOff
import ScriptFront.Proofs.Program.Settled
import ScriptFront.Proofs.Tree.Alike

/-!
# Declaration before use

In a program that compiles, a name that is used as a value stands for the nearest
variable of that name, looking outwards. A variable whose place matters is declared in
front of the use: its whole declaration has ended there. It cannot stand further
down, because the places of the name and of the declaration are compared, and the use
cannot be a part of the declaration, because no initializer mentions its own variable.
-/
namespace ScriptFront

variable {types : TypeTable} {t : SymbolTable} {result : TypeId} {scope : ScopeId} {next : ℕ}
  {name : Token}

/-! ## Symbols of variables -/

/-- The symbol is that of a variable, which the statement declares. -/
structure Stmt.Enters (s : Stmt) (symbol : Symbol) : Prop where
  kind : symbol.kind = .localVariable
  declared : s.Declares symbol.declaration
  named : symbol.name = symbol.declaration.text

theorem Stmt.Enters.lift {s s' : Stmt} {symbol : Symbol} (h : s.Enters symbol)
    (hlift : s.Declares symbol.declaration → s'.Declares symbol.declaration) : s'.Enters symbol :=
  { h with declared := hlift h.declared }

theorem Stmt.exists_enters_of_mem {ss : List Stmt} {e : Entry}
    (ih : ∀ s ∈ ss, ∀ {next}, e ∈ s.entries scope next → s.Enters e.symbol)
    (he : e ∈ entries.entriesAll scope next ss) : ∃ s ∈ ss, s.Enters e.symbol := by
  induction ss generalizing next with
  | nil => cases he
  | cons s ss ihs =>
      rcases List.mem_append.mp he with he | he
      · exact ⟨s, by simp, ih s (by simp) he⟩
      · obtain ⟨s', hs', h⟩ := ihs (fun s hs => ih s (by simp [hs])) he
        exact ⟨s', List.mem_cons_of_mem _ hs', h⟩

theorem Stmt.enters_of_mem {s : Stmt} {e : Entry} (he : e ∈ s.entries scope next) :
    s.Enters e.symbol := by
  induction s using tree_induction generalizing scope next with
  | empty | breakLoop | assign | returnValue | call => cases he
  | whileLoop condition body token ih => exact (ih he).lift .whileLoop
  | ifThen condition thenBranch token ih => exact (ih he).lift .ifThen
  | ifThenElse condition thenBranch elseBranch token ihthen ihelse =>
      rcases List.mem_append.mp he with he | he
      · exact (ihthen he).lift .thenBranch
      · exact (ihelse he).lift .elseBranch
  | block statements openBrace ih =>
      obtain ⟨s, hs, h⟩ := exists_enters_of_mem (fun s hs _ => ih s hs) he
      exact h.lift (.block hs)
  | varDecl type name initializer? symbol? =>
      obtain rfl := List.mem_singleton.mp he
      exact ⟨rfl, .varDecl, rfl⟩

/-- The symbol of a variable whose place matters is declared by the definition under its
name, and a function is declared in the global scope. -/
structure Global.Enters (g : Global) (symbol : Symbol) : Prop where
  declared : symbol.kind ∈ [.localVariable, .globalVariable] →
    g.DeclaresVariable symbol.declaration ∧ symbol.name = symbol.declaration.text
  function : symbol.kind = .function → symbol.scope = .global

theorem Global.enters_of_mem {g : Global} {e : Entry} (he : e ∈ g.entries next) :
    g.Enters e.symbol := by
  cases g with
  | var v =>
      obtain rfl := List.mem_singleton.mp he
      exact ⟨fun _ => ⟨rfl, rfl⟩, nofun⟩
  | function f =>
      rcases List.mem_append.mp he with he | he
      · rcases List.mem_cons.mp he with rfl | he
        · exact ⟨by simp, fun _ => rfl⟩
        · rcases List.mem_cons.mp he with rfl | he
          · exact ⟨by simp, nofun⟩
          · obtain ⟨p, -, rfl⟩ := List.mem_map.mp he
            exact ⟨by simp [Param.entry], nofun⟩
      · obtain ⟨s, hs, h⟩ := Stmt.exists_enters_of_mem (fun s _ _ => Stmt.enters_of_mem) he
        refine ⟨fun _ => ⟨⟨s, hs, h.declared⟩, h.named⟩, fun hk => ?_⟩
        cases hk.symm.trans h.kind

/-- Every symbol is entered by a definition. -/
theorem Program.MirroredBy.exists_enters {p : Program} (h : p.MirroredBy t) {id : SymbolId}
    {symbol : Symbol} (hs : t.symbol? id = some symbol) :
    ∃ g ∈ p.globals, g.Enters symbol := by
  obtain ⟨g, hg, next, e, he, rfl⟩ := h.exists_entry hs
  exact ⟨g, hg, Global.enters_of_mem he⟩

/-! ## The variables of the source -/

theorem Stmt.AllDeclared.exists_declares {ss ss' : List Stmt}
    (ih : ∀ s ∈ ss, ∀ {scope s'}, s.Declared types t result scope s' → s'.Declares name →
      s.Declares name)
    (h : AllDeclared types t result scope ss ss') {s' : Stmt} (hs' : s' ∈ ss')
    (hd : s'.Declares name) : ∃ s ∈ ss, s.Declares name := by
  induction ss generalizing ss' with
  | nil =>
      cases h
      cases hs'
  | cons s ss ihs =>
      cases h with
      | cons hs hss =>
          rcases List.mem_cons.mp hs' with rfl | hs'
          · exact ⟨s, by simp, ih s (by simp) hs hd⟩
          · obtain ⟨s₁, hs₁, hd⟩ := ihs (fun s hs => ih s (by simp [hs])) hss hs'
            exact ⟨s₁, List.mem_cons_of_mem _ hs₁, hd⟩

theorem Stmt.Declared.declares {s s' : Stmt} (h : s.Declared types t result scope s')
    (hd : s'.Declares name) : s.Declares name := by
  induction s using Stmt.tree_induction generalizing scope s' with
  | empty | breakLoop | assign | returnValue | call =>
      cases h
      cases hd
  | whileLoop condition body token ih =>
      cases h with
      | whileLoop hbody =>
          cases hd with
          | whileLoop hd => exact .whileLoop (ih hbody hd)
  | ifThen condition thenBranch token ih =>
      cases h with
      | ifThen hthen =>
          cases hd with
          | ifThen hd => exact .ifThen (ih hthen hd)
  | ifThenElse condition thenBranch elseBranch token ihthen ihelse =>
      cases h with
      | ifThenElse hthen helse =>
          cases hd with
          | thenBranch hd => exact .thenBranch (ihthen hthen hd)
          | elseBranch hd => exact .elseBranch (ihelse helse hd)
  | block statements openBrace ih =>
      cases h with
      | block _ _ hall =>
          cases hd with
          | block hs' hd =>
              obtain ⟨s, hs, hd⟩ := hall.exists_declares (fun s hs _ _ => ih s hs) hs' hd
              exact .block hs hd
  | varDecl type n initializer? symbol? =>
      cases h
      cases hd
      exact .varDecl

theorem Global.Declared.declaresVariable {g g' : Global} (h : g.Declared types t g')
    (hd : g'.DeclaresVariable name) : g.DeclaresVariable name := by
  cases h with
  | var => exact hd
  | function hf =>
      cases hf with
      | intro _ _ _ _ _ hbody =>
          obtain ⟨s, hs, hd⟩ := hd
          exact hbody.exists_declares (fun _ _ _ _ hs => hs.declares) hs hd

theorem Global.DeclaresVariable.of_cleanup {g : Global}
    (h : g.cleanup.value.DeclaresVariable name) : g.DeclaresVariable name := by
  cases g with
  | var v => exact h
  | function f =>
      obtain ⟨s', hs', hd⟩ := h
      obtain ⟨s, hs, rfl⟩ := Stmt.exists_of_mem_cleanupList hs'
      exact ⟨s, hs, hd.of_cleanup⟩

/-- A variable of what is left of a program is one of the program. -/
theorem Program.exists_declaresVariable {p p' : Program}
    (h : List.Forall₂ (Global.Declared types t) p.cleanup.value.globals p'.globals)
    (hd : ∃ g ∈ p'.globals, g.DeclaresVariable name) :
    ∃ g ∈ p.globals, g.DeclaresVariable name := by
  obtain ⟨g', hg', hd⟩ := hd
  obtain ⟨g, hg, hdeclared⟩ := exists_of_mem_forall₂ h hg'
  obtain ⟨g₀, hg₀, rfl⟩ := Global.exists_of_mem_cleanupAll hg
  exact ⟨g₀, hg₀, (hdeclared.declaresVariable hd).of_cleanup⟩

/-! ## Uses behind declarations -/

/-- The name stands for the nearest variable among the scopes around it. If the place of
that variable matters, the tokens of its whole declaration are in front of the name. -/
inductive Use.DeclaredBefore (p : Program) (tokens : List Token) (t : SymbolTable) (u : Use) :
    Prop
  | intro {id : SymbolId} {symbol : Symbol} : u.ident.symbol? = some id →
      t.symbol? id = some symbol → symbol.kind.isVariableLike → t.Outwards u.scopes →
      t.NearestIn u.scopes u.ident.name id →
      (symbol.kind ∈ [.localVariable, .globalVariable] → ∃ before declaration after,
        tokens = before ++ declaration ++ after ∧
        (∃ g ∈ p.globals, g.Declaration symbol.declaration declaration) ∧
        u.ident.token ∈ after) → DeclaredBefore p tokens t u

theorem Global.Declaration.mem {g : Global} {v : List Token} (h : g.Declaration name v) :
    name ∈ v := by
  cases h with
  | inside _ _ hv =>
      cases hv with
      | varDecl => simp
  | var hname hv =>
      subst hname
      cases hv with
      | intro => simp

/-- A settled use is no part of the declaration of its variable. -/
theorem Use.Settled.not_inside {p : Program} (hmirror : p.MirroredBy t) (hcomplete : t.Complete)
    {u v : Use} (h : u.Settled types t v) {id : SymbolId} {symbol : Symbol}
    (hid : v.ident.symbol? = some id) (hs : t.symbol? id = some symbol)
    (hnearest : t.NearestIn v.scopes v.ident.name id)
    (hname : symbol.declaration.text = v.ident.name) : u.inside? ≠ some symbol.declaration := by
  cases h with
  | @intro scope outer inside? initializing? i j hscopes hroot hinside hsettled =>
      rintro ⟨⟩
      obtain ⟨own, hlocal, rfl⟩ := hinside _ rfl
      obtain ⟨ownSymbol, hown, -, hscope⟩ := hmirror.nested.entry hlocal
      obtain ⟨g, -, henters⟩ := hmirror.exists_enters hown
      have hk : ownSymbol.kind ≠ .function := by
        intro hk
        exact hroot (hscope.symm.trans (henters.function hk))
      have hhas : t.HasVariable scope j.name := by
        refine ⟨own, ownSymbol, hname ▸ hlocal, hown, ?_⟩
        exact hcomplete.isVariableLike (Γ := .rules types t) hown hk
      have hsame := hnearest.eq_of_hasVariable hhas
      cases hsettled with
      | intro hbound _ _ _ hne =>
          subst hbound
          obtain rfl := Option.some.inj hid
          rw [← hname, hlocal] at hsame
          exact hne hsame

theorem Use.Settled.token_eq {u v : Use} (h : u.Settled types t v) :
    v.ident.token = u.ident.token := by
  cases h with
  | intro _ _ _ hsettled =>
      cases hsettled with
      | intro hbound =>
          subst hbound
          rfl

theorem Use.Settled.declaredBefore {p p' : Program} {body : List Token} (rest : List Token)
    (hspelled : p.SpelledBy Expr.SpelledBy body)
    (hplaces : body.Pairwise fun a b => a.position < b.position)
    (hvariables : ∀ name, (∃ g ∈ p'.globals, g.DeclaresVariable name) →
      ∃ g ∈ p.globals, g.DeclaresVariable name)
    (hmirror : p'.MirroredBy t) (hcomplete : t.Complete) {u v : Use} (hu : u ∈ p.uses t)
    (h : u.Settled types t v) : v.DeclaredBefore p (body ++ rest) t := by
  have hinside {id : SymbolId} {symbol : Symbol} := @not_inside types t p' hmirror hcomplete u v h
    id symbol
  cases h with
  | @intro scope outer inside? initializing? i j hscopes hroot _ hsettled =>
      cases hsettled with
      | @intro id symbol hbound hdenotes hk hplace _ =>
          subst hbound
          have hvariable := hcomplete.isVariableLike (Γ := .rules types t) hdenotes.entry hk
          have hnearest := hmirror.nested.nearestIn_of_lookup? hscopes hdenotes.found
            hdenotes.entry hvariable
          refine .intro rfl hdenotes.entry hvariable hscopes hnearest fun hordered => ?_
          obtain ⟨g, hg, henters⟩ := hmirror.exists_enters hdenotes.entry
          obtain ⟨hdeclared, hnamed⟩ := henters.declared hordered
          obtain ⟨g, hg, declaration, hspells, before, after, rfl, hsides⟩ :=
            Repeated.exists_setOff (t := t) hspelled (hvariables _ ⟨g, hg, hdeclared⟩)
          refine ⟨before, declaration, after ++ rest, List.append_assoc _ _ _,
            ⟨g, hg, hspells⟩, List.mem_append_left _ ?_⟩
          rcases hsides _ hu with hown | hbefore | hafter
          · obtain ⟨_, hlocal⟩ := SymbolTable.exists_local?_of_lookup? hdenotes.found
            have hname := hcomplete.named hlocal hdenotes.entry
            exact absurd hown (hinside rfl hdenotes.entry hnearest (hnamed.symm.trans hname))
          · have hfront := (List.pairwise_append.mp (List.pairwise_append.mp hplaces).1).2.2
            exact absurd (hfront _ hbefore _ hspells.mem) (hplace hordered)
          · exact hafter

namespace Compilation

/-- In a source that compiles, every name that is used as a value, in all of the program,
is bound to the nearest variable of that name, and stands behind the declaration of a
variable whose place matters. -/
theorem uses_declaredBefore {source : String} {a : Artifact}
    (h : (ofSource source).artifact? = some a) : ∃ tokens p,
      Token.ofSource source = .ok tokens ∧ Program.ofTokens tokens = .ok p ∧
      (a.program.uses a.symbols).map (·.ident.token) =
        (p.uses a.symbols).map (·.ident.token) ∧
      ∀ u ∈ a.program.uses a.symbols, u.DeclaredBefore p tokens a.symbols := by
  obtain ⟨tokens, p, p', hsource, hp, hdeclare, hcheck, -⟩ := exists_of_artifact? h
  obtain ⟨body, place, rfl, -, hspelled⟩ := Program.exists_spelledBy hsource hp
  have hlaid : Laid [] source.toList (body ++ [.endOfInput place]) :=
    Token.laid_of_scan rfl hsource
  obtain ⟨hcomplete, hglobals⟩ := Declaring.Leads.of_clean
    (Program.declare_cleanup_leads hsource hp) hdeclare
  have hmirror := Declaring.Leads.of_clean (Program.declare_cleanup_mirrors hsource hp) hdeclare
  have hsettles := Program.check_settles hcomplete hmirror.nested hglobals
  unfold Reported.Leaves at hsettles
  rw [hcheck, Program.uses_cleanup] at hsettles
  have huses := hsettles rfl
  refine ⟨_, p, hsource, hp, ?_, fun v hv => ?_⟩
  · exact (map_eq_of_forall₂ (fun _ _ hsettled => hsettled.token_eq.symm) huses).symm
  · obtain ⟨u, hu, hsettled⟩ := exists_of_mem_forall₂ huses hv
    exact hsettled.declaredBefore [.endOfInput place] hspelled
      (List.pairwise_append.mp hlaid.increasing).1
      (fun _ => Program.exists_declaresVariable hglobals) hmirror hcomplete hu

/-- A variable that is hidden by one of the same name in a block. -/
theorem uses_declaredBefore_of_blocks :
    let source := "int x; int f(int y)\x7bint z = x + y; \x7by = f(z); int x = 1; z = x;\x7d return z;\x7d"
    ∃ a tokens p, (ofSource source).artifact? = some a ∧
      Token.ofSource source = .ok tokens ∧ Program.ofTokens tokens = .ok p ∧
      (a.program.uses a.symbols).map (·.ident.token) =
        (p.uses a.symbols).map (·.ident.token) ∧
      ∀ u ∈ a.program.uses a.symbols, u.DeclaredBefore p tokens a.symbols := by
  intro source
  have h : (ofSource source).artifact?.isSome := by decide +kernel
  obtain ⟨a, ha⟩ := Option.isSome_iff_exists.mp h
  obtain ⟨tokens, p, huses⟩ := uses_declaredBefore ha
  exact ⟨a, tokens, p, ha, huses⟩

end Compilation

end ScriptFront
