import ScriptFront.Proofs.Program.DeclarationRules
import ScriptFront.Proofs.Program.Filled

/-!
# What the first analysis reports

The first analysis reports the faults of the declarations of a program, each once, in the
order of the program. It answers from its table what the rules say from the names that are
declared earlier: behind each part of the program, the names that are taken in a scope are
those of the parts that belong to it.
-/
namespace ScriptFront

/-! ## Reports -/

namespace Declaring

variable {α β : Type} {m : Declaring α} {t : SymbolTable} {ds es : List Diagnostic}
  {Q Q' : α → SymbolTable → Prop}

/-- A run from `t` reports these diagnostics, and ends as `Q` says. -/
structure Reports (m : Declaring α) (t : SymbolTable) (ds : List Diagnostic)
    (Q : α → SymbolTable → Prop) : Prop extends Ends m t Q where
  diagnostics : (m t).diagnostics = ds

namespace Reports

theorem pure {a : α} (h : Q a t) : (Pure.pure a : Declaring α).Reports t [] Q :=
  ⟨.pure h, rfl⟩

theorem mono (h : m.Reports t ds Q) (hQ : ∀ a u, Q a u → Q' a u) : m.Reports t ds Q' :=
  ⟨h.toEnds.mono hQ, h.diagnostics⟩

theorem seq {f : α → Declaring β} {R : β → SymbolTable → Prop} (h : m.Reports t ds Q)
    (hf : ∀ a u, Q a u → (f a).Reports u es R) : (m >>= f).Reports t (ds ++ es) R where
  post := (h.toEnds.seq fun a u hQ => (hf a u hQ).toEnds).post
  diagnostics := congrArg₂ (· ++ ·) h.diagnostics (hf _ _ h.post).diagnostics

theorem last {f : α → Declaring β} {R : β → SymbolTable → Prop} (h : m.Reports t ds Q)
    (hf : ∀ a u, Q a u → (f a).Reports u [] R) : (m >>= f).Reports t ds R :=
  List.append_nil ds ▸ h.seq hf

theorem after {f : α → Declaring β} {R : β → SymbolTable → Prop} (h : m.Reports t [] Q)
    (hf : ∀ a u, Q a u → (f a).Reports u es R) : (m >>= f).Reports t es R :=
  h.seq hf

theorem report {fault : Fault} {token : Token} :
    (Declaring.report fault token).Reports t [⟨fault, token.position⟩] fun _ u => u = t :=
  ⟨⟨rfl⟩, rfl⟩

theorem report_if {fault : Fault} {token : Token} {c c' : Prop} [Decidable c] [Decidable c']
    {f : Unit → Declaring α} (hc : c ↔ c') (h : (f ()).Reports t [] Q) :
    (if c then Declaring.report fault token >>= f else f ()).Reports t
      (if c' then [⟨fault, token.position⟩] else []) Q := by
  simp only [hc]
  split_ifs
  · exact report.last fun _ _ heq => heq ▸ h
  · exact h

theorem of_silent {f : α → Declaring β} {R : β → SymbolTable → Prop} {a : α} {u : SymbolTable}
    (hm : m t = ⟨(a, u), []⟩) (h : (f a).Reports u es R) : (m >>= f).Reports t es R := by
  obtain ⟨⟨hpost⟩, hdiagnostics⟩ := h
  rw [← bind_of_silent (f := f) hm] at hpost hdiagnostics
  exact ⟨⟨hpost⟩, hdiagnostics⟩

end Reports

end Declaring

variable {types : TypeTable} {t : SymbolTable} {scope : ScopeId} {loops : ℕ}
  {earlier : List String}

namespace SymbolTable

/-- The names that are taken in the scope are these. -/
def HasTaken (t : SymbolTable) (scope : ScopeId) (names : List String) : Prop :=
  ∀ n, t.Takes scope n ↔ n ∈ names

theorem HasTaken.fill {u : SymbolTable} {names : List String} {braces : List Token}
    (h : t.HasTaken scope earlier) (hfilled : t.Filled scope names braces u) :
    u.HasTaken scope (earlier ++ names) := by
  intro n
  rw [hfilled.takes_iff, h n, List.mem_append]

theorem Opens.hasTaken {u : SymbolTable} {inner : ScopeId} {name : String}
    (h : t.Opens scope name inner u) : u.HasTaken inner [] :=
  fun n => iff_of_false (h.not_takes n) List.not_mem_nil

end SymbolTable

namespace Declaring

theorem resolve_reports (written : TypeName) :
    Reports (StateT.lift (Reported.ofExcept (types.resolve written))) t
      (types.resultFault? written).toList fun _ u => u = t :=
  ⟨⟨rfl⟩, (List.append_nil _).trans (types.diagnostics_resolve written)⟩

theorem newSymbol?_reports (ht : t.Nested) (hs : t.Known scope) (kind : SymbolKind) (name : Token)
    (type? : Option TypeId) : (newSymbol? scope kind name type?).Reports t [] fun id? u =>
      t.Filled scope [name.text] [] u ∧ (id?.isNone ↔ t.Takes scope name.text) := by
  have hadd := @SymbolTable.addSymbol?_eq_none_iff t scope
    { name := name.text, kind, declaration := name, type? }
  unfold newSymbol?
  cases h : t.addSymbol? scope { name := name.text, kind, declaration := name, type? } with
  | none =>
      have htaken : t.Takes scope name.text := hadd.mp h hs
      refine ⟨⟨?_⟩, ?_⟩
      · rw [add?_of_none h]
        refine ⟨.of_takes ht fun n hn => ?_, by simpa using htaken⟩
        rwa [List.mem_singleton.mp hn]
      · rw [add?_of_none h]
  | some r =>
      have hadds := SymbolTable.adds_of_addSymbol? h
      have hfree : ¬ t.Takes scope name.text := by
        unfold SymbolTable.Takes
        rw [hadds.free]
        simp
      refine ⟨⟨?_⟩, ?_⟩
      · rw [add?_of_some h]
        exact ⟨.of_adds ht hadds, by simpa using hfree⟩
      · rw [add?_of_some h]

/-- The declaration of a variable is reported on as its type and the names before it say. -/
theorem newVariable?_reports (ht : t.Nested) (hs : t.Known scope) (kind : SymbolKind)
    {type : TypeName} {name : Token} (hearlier : t.Takes scope name.text ↔ name.text ∈ earlier) :
    (newVariable? types scope kind type name).Reports t
      (types.variableFaults earlier (.variableAlreadyDeclared name.text) type name)
      fun _ u => t.Filled scope (types.namesTaken type name) [] u := by
  unfold newVariable? TypeTable.variableFaults TypeTable.namesTaken
  rcases types.resolveStorage_cases type with ⟨d, hresolved, hfault⟩ | ⟨resolved, hresolved, hfault⟩
  · rw [hresolved, hfault]
    exact ⟨⟨.refl ht⟩, rfl⟩
  · rw [hresolved, hfault]
    refine .of_silent rfl ((newSymbol?_reports ht hs kind name (some resolved)).after ?_)
    intro id? u h
    exact .report_if (h.2.trans hearlier) (.pure h.1)

end Declaring

/-! ## Statements -/

/-- A run declares what the statement declares and opens the scopes of its blocks. -/
abbrev SymbolTable.FilledBy (t : SymbolTable) (types : TypeTable) (scope : ScopeId) (s : Stmt)
    (u : SymbolTable) : Prop :=
  t.Filled scope (s.namesTaken types) s.braces u

/-- The names that the statements of a list take in the block that they stand in. -/
def Stmt.namesTakenAll (types : TypeTable) (ss : List Stmt) : List String :=
  ss.flatMap (Stmt.namesTaken types)

theorem Stmt.declareAll_reports {ss : List Stmt} {inLoop : Bool} (ht : t.Nested)
    (hs : t.Known scope) (hapart : Token.Apart (braces.bracesAll ss))
    (hfree : ∀ b ∈ braces.bracesAll ss, t.Free b) (hearlier : t.HasTaken scope earlier)
    (ih : ∀ s ∈ ss, ∀ {t : SymbolTable} {earlier : List String}, t.Nested → t.Known scope →
      Token.Apart s.braces → (∀ b ∈ s.braces, t.Free b) → t.HasTaken scope earlier →
      (s.declare types scope loops).Reports t (s.declarationFaults types inLoop earlier)
        fun _ u => t.FilledBy types scope s u) :
    (declare.declareAll types scope loops ss).Reports t
      (declarationFaults.faultsAll types inLoop earlier ss)
      fun _ u => t.Filled scope (namesTakenAll types ss) (braces.bracesAll ss) u := by
  induction ss generalizing t earlier with
  | nil => exact .pure (.refl ht)
  | cons s ss ihs =>
      obtain ⟨haparts, hapartss, hcross⟩ := List.pairwise_append.mp hapart
      rw [braces.bracesAll, List.forall_mem_append] at hfree
      refine (ih s (by simp) ht hs haparts hfree.1 hearlier).seq fun _ u hfilled => ?_
      have hfree' : ∀ b ∈ braces.bracesAll ss, u.Free b := fun b hb =>
        hfilled.free (fun b' hb' => hcross b' hb' b hb) (hfree.2 b hb)
      refine Declaring.Reports.last (ihs hfilled.evolves.nested (hfilled.known hs) hapartss hfree'
        (hearlier.fill hfilled) fun s hs => ih s (by simp [hs])) fun _ v hfilled' => ?_
      exact .pure (hfilled.trans hfilled')

/-- A block that begins at a place of its own is reported on as its statements are, with no
names before them. -/
theorem Declaring.block_reports {ss : List Stmt} {openBrace : Token} {inLoop : Bool}
    (ht : t.Nested) (hs : t.Known scope) (hroot : scope ≠ .global)
    (hapart : Token.Apart (openBrace :: Stmt.braces.bracesAll ss))
    (hfree : ∀ b ∈ openBrace :: Stmt.braces.bracesAll ss, t.Free b)
    (ih : ∀ {t : SymbolTable} {scope : ScopeId}, t.Nested → t.Known scope → scope ≠ .global →
      (∀ b ∈ Stmt.braces.bracesAll ss, t.Free b) → t.HasTaken scope [] →
      (Stmt.declare.declareAll types scope loops ss).Reports t
        (Stmt.declarationFaults.faultsAll types inLoop [] ss)
        fun _ u => t.Filled scope (Stmt.namesTakenAll types ss) (Stmt.braces.bracesAll ss) u) :
    (Declaring.block types scope loops openBrace ss).Reports t
      (Stmt.declarationFaults.faultsAll types inLoop [] ss)
      fun _ u => t.Filled scope [] (openBrace :: Stmt.braces.bracesAll ss) u := by
  obtain ⟨hopen, -⟩ := List.pairwise_cons.mp hapart
  rw [List.forall_mem_cons] at hfree
  obtain ⟨inner, u, heq, ⟨-, hinner⟩ | hopens⟩ :=
    blockScope?_eq hs (Stmt.blockScopeName openBrace)
  · rw [hfree.1 scope hroot] at hinner
    cases hinner
  · have hevolves := hopens.evolve ht fun h => absurd h hroot
    refine .of_silent heq (Reports.mono (ih hevolves.nested ?_ ?_ ?_ hopens.hasTaken) ?_)
    · exact hevolves.nested.known_inner hopens.opened
    · exact hevolves.nested.inner_ne_global hopens.opened
    · exact fun b hb => hopens.free_of_ne (hopen b hb) (hfree.2 b hb)
    · exact fun _ v hfilled => .block ht hroot hopens hfilled

/-- A statement is reported on as its text and the names before it in its block say. -/
theorem Stmt.declare_reports {s : Stmt} {inLoop : Bool} (hloops : inLoop = (loops != 0))
    (ht : t.Nested) (hs : t.Known scope) (hroot : scope ≠ .global)
    (hapart : Token.Apart s.braces) (hfree : ∀ b ∈ s.braces, t.Free b)
    (hearlier : t.HasTaken scope earlier) :
    (s.declare types scope loops).Reports t (s.declarationFaults types inLoop earlier)
      fun _ u => t.FilledBy types scope s u := by
  induction s using tree_induction generalizing t scope loops inLoop earlier with
  | empty | assign | returnValue | call => exact .pure (.refl ht)
  | breakLoop token =>
      unfold declare declarationFaults
      exact .report_if (by simp [hloops]) (.pure (.refl ht))
  | whileLoop condition body token ih =>
      exact (ih (by simp) ht hs hroot hapart hfree hearlier).last fun _ u h => .pure h
  | ifThen condition thenBranch token ih =>
      exact (ih hloops ht hs hroot hapart hfree hearlier).last fun _ u h => .pure h
  | ifThenElse condition thenBranch elseBranch token ihthen ihelse =>
      obtain ⟨hapartthen, hapartelse, hcross⟩ := List.pairwise_append.mp hapart
      rw [braces, List.forall_mem_append] at hfree
      refine (ihthen hloops ht hs hroot hapartthen hfree.1 hearlier).seq fun _ u hthen => ?_
      have hfree' : ∀ b ∈ elseBranch.braces, u.Free b := fun b hb =>
        hthen.free (fun b' hb' => hcross b' hb' b hb) (hfree.2 b hb)
      refine (ihelse hloops hthen.evolves.nested (hthen.known hs) hroot hapartelse hfree'
        (hearlier.fill hthen)).last fun _ v helse => .pure ?_
      exact hthen.trans helse
  | block statements openBrace ih =>
      rw [declare_block]
      obtain ⟨-, hstatements⟩ := List.pairwise_cons.mp hapart
      refine (Declaring.block_reports ht hs hroot hapart hfree ?_).last fun _ _ h => .pure h
      intro t scope ht hs hroot hfree hearlier
      refine declareAll_reports ht hs hstatements hfree hearlier ?_
      exact fun s hmem _ _ ht hs => ih s hmem hloops ht hs hroot
  | varDecl type name initializer? symbol? =>
      refine (Declaring.newVariable?_reports ht hs _ (hearlier name.text)).last fun v? u h => ?_
      cases v? with
      | none => exact .pure h
      | some v => exact .pure h

/-! ## Functions -/

namespace FnDef

theorem declareParam_reports {function : String} {p : Param} (ht : t.Nested)
    (hs : t.Known scope) (hearlier : t.Takes scope p.name.text ↔ p.name.text ∈ earlier) :
    (declareParam types scope function p).Reports t
      (types.variableFaults earlier (.parameterAlreadyDeclared p.name.text function) p.type p.name)
      fun _ u => t.Filled scope (types.namesTaken p.type p.name) [] u := by
  unfold declareParam TypeTable.variableFaults TypeTable.namesTaken
  rcases types.resolveStorage_cases p.type with ⟨d, hresolved, hfault⟩ | ⟨type, hresolved, hfault⟩
  · rw [hresolved, hfault]
    exact ⟨⟨.refl ht⟩, rfl⟩
  · rw [hresolved, hfault]
    refine .of_silent rfl ((Declaring.newSymbol?_reports ht hs _ _ _).after fun id? u h => ?_)
    obtain ⟨hfilled, hnone⟩ := h
    have hclash := hnone.trans hearlier
    cases id? with
    | none =>
        dsimp only
        rw [if_pos (hclash.mp rfl)]
        exact .last .report fun _ _ heq => .pure (heq ▸ hfilled)
    | some id =>
        dsimp only
        rw [if_neg fun h => Bool.false_ne_true (hclash.mpr h)]
        exact .pure hfilled

/-- The names that parameters take in the scope of their function. -/
def paramNames (types : TypeTable) (ps : List Param) : List String :=
  ps.flatMap fun p => types.namesTaken p.type p.name

theorem declareParams_reports {function : String} {ps : List Param} (ht : t.Nested)
    (hs : t.Known scope)
    (hearlier : ∀ p ∈ ps, t.Takes scope p.name.text ↔ p.name.text ∈ earlier) :
    (declareParams types scope function ps).Reports t (paramFaults types function earlier ps)
      fun _ u => t.Filled scope (paramNames types ps) [] u := by
  induction ps generalizing t earlier with
  | nil => exact .pure (.refl ht)
  | cons p ps ih =>
      rw [List.forall_mem_cons] at hearlier
      refine (declareParam_reports ht hs hearlier.1).seq fun _ u hfilled => ?_
      have hearlier' : ∀ q ∈ ps, u.Takes scope q.name.text ↔
          q.name.text ∈ earlier ++ types.namesTaken p.type p.name := by
        intro q hq
        rw [hfilled.takes_iff, hearlier.2 q hq, List.mem_append]
      refine (ih hfilled.evolves.nested (hfilled.known hs) hearlier').last fun _ v hfilled' => ?_
      exact .pure (hfilled.trans hfilled')

/-- What entering a function that is free leaves behind: the scope of the function, with its
parameters in it. -/
structure EnteredAt (f : FnDef) (t : SymbolTable) (r : FnDef × Option ScopeId)
    (v : SymbolTable) (scope : ScopeId) : Prop where
  answer : r.2 = some scope
  openBrace : r.1.openBrace = f.openBrace
  body : r.1.body = f.body
  inside {names : List String} {braces : List Token} {w : SymbolTable} :
    v.Filled scope names braces w → t.Filled .global [f.name.text] braces w
  nested : v.Nested
  known : v.Known scope
  root : scope ≠ .global

theorem declareInside_reports {f : FnDef} {t₁ t₂ : SymbolTable} {id : SymbolId}
    {returnType? : Option TypeId} (ht : t₁.Nested)
    (hname : ∃ id, t₁.local? .global f.name.text = some id)
    (hopens : t₁.Opens .global f.name.text scope t₂)
    (hnames : ∀ p ∈ f.params, p.name.text ≠ Symbol.returnValueName)
    (hfilled : ∀ {braces v}, t₁.Filled .global [] braces v →
      t.Filled .global [f.name.text] braces v) :
    Declaring.Reports (do
        if (← Declaring.add? fun t => t.addSymbol? scope
            { name := Symbol.returnValueName, kind := .returnValue, declaration := f.name,
              type? := returnType? }).isNone then
          Declaring.report (.returnValueAlreadyDeclared f.name.text) f.name
        let (params, signature) ← declareParams types scope f.name.text f.params
        modify fun t => t.setSignature id returnType? signature
        return ({ f with
          returnType := { f.returnType with resolved? := returnType? }
          params, symbol? := some id }, some scope)) t₂
      (paramFaults types f.name.text [] f.params) fun r v => ∃ scope, f.EnteredAt t r v scope := by
  have hnested := hopens.nested ht fun _ => hname
  have hknown := hnested.known_inner hopens.opened
  cases h : t₂.addSymbol? scope
      { name := Symbol.returnValueName, kind := .returnValue, declaration := f.name,
        type? := returnType? } with
  | none => exact absurd h hopens.addSymbol?_ne_none
  | some r =>
      have hresult := SymbolTable.Filled.of_adds hnested (SymbolTable.adds_of_addSymbol? h)
      have hearlier : ∀ p ∈ f.params, r.2.Takes scope p.name.text ↔ p.name.text ∈ [] := by
        intro p hp
        rw [hresult.takes_iff]
        simp [hopens.not_takes, hnames p hp]
      refine .of_silent (Declaring.add?_of_some h) ?_
      refine (declareParams_reports hresult.evolves.nested (hresult.known hknown) hearlier).last ?_
      intro r' v hparams
      have hinside := (hresult.trans hparams).setSignature id returnType? r'.2
      refine .of_silent rfl (.pure ⟨scope, rfl, rfl, rfl, fun hbody => ?_, ?_, ?_, ?_⟩)
      · exact hfilled (.function ht (Option.isSome_iff_exists.mpr hname) hopens
          (hinside.trans hbody))
      · exact hinside.evolves.nested
      · exact hinside.known hknown
      · exact hnested.inner_ne_global hopens.opened

theorem enter_reports_of_free {f : FnDef} (ht : t.Nested)
    (hnames : ∀ p ∈ f.params, p.name.text ≠ Symbol.returnValueName)
    (hfree : ¬ t.Takes .global f.name.text) :
    (f.enter types).Reports t ((types.resultFault? f.returnType).toList ++
        paramFaults types f.name.text [] f.params)
      fun r v => ∃ scope, f.EnteredAt t r v scope := by
  refine (Declaring.resolve_reports f.returnType).seq fun returnType? u heq => ?_
  subst heq
  cases h₁ : u.addSymbol? .global
      { name := f.name.text, kind := .function, declaration := f.name, type? := returnType? } with
  | none => exact absurd (SymbolTable.addSymbol?_eq_none_iff.mp h₁ ht.root) hfree
  | some r =>
      obtain ⟨id, t₁⟩ := r
      have hadds := SymbolTable.adds_of_addSymbol? h₁
      have hnested := hadds.nested ht
      obtain ⟨scope, t₂, h₂, hopens⟩ := hnested.root.opens (hadds.subScope?_eq_none ht)
      refine .of_silent (Declaring.add?_of_some h₁) (.of_silent (Declaring.add?_of_some h₂) ?_)
      exact declareInside_reports hnested ⟨id, hadds.declared⟩ hopens hnames fun h =>
        (SymbolTable.Filled.of_adds ht hadds).trans h

theorem enter_reports_of_taken {f : FnDef} (htaken : t.Takes .global f.name.text) :
    (f.enter types).Reports t ((types.resultFault? f.returnType).toList ++
        [⟨.functionAlreadyDeclared f.name.text, f.name.position⟩])
      fun r v => r.2 = none ∧ v = t := by
  refine (Declaring.resolve_reports f.returnType).seq fun returnType? u heq => ?_
  subst heq
  have hnone : u.addSymbol? .global
      { name := f.name.text, kind := .function, declaration := f.name, type? := returnType? } =
        none := SymbolTable.addSymbol?_eq_none_iff.mpr fun _ => htaken
  refine .of_silent (Declaring.add?_of_none hnone) ?_
  exact .last .report fun _ _ heq => .pure ⟨rfl, heq⟩

end FnDef

/-! ## Programs -/

/-- A definition is reported on as its text and the names of the definitions before it say. -/
theorem Global.declare_reports {g : Global} (ht : t.Nested) (hapart : Token.Apart g.braces)
    (hfree : ∀ b ∈ g.braces, t.Free b)
    (hnames : ∀ name, g.Declares name → name.text ≠ Symbol.returnValueName)
    (hearlier : t.HasTaken .global earlier) :
    (g.declare types).Reports t (g.declarationFaults types earlier)
      fun _ u => t.Filled .global (g.namesTaken types) g.braces u := by
  cases g with
  | var v =>
      unfold declare GlobalVar.declare
      dsimp only
      rw [map_eq_pure_bind, bind_assoc]
      refine Declaring.Reports.last (Declaring.newVariable?_reports ht ht.root _
        (hearlier v.name.text)) fun r u h => ?_
      cases r with
      | none => exact .pure h
      | some r => exact .pure h
  | function f =>
      rw [declare_function]
      unfold declarationFaults
      dsimp only
      unfold FnDef.declarationFaults
      by_cases htaken : f.name.text ∈ earlier
      · rw [if_pos htaken]
        have htakes := (hearlier f.name.text).mpr htaken
        refine (FnDef.enter_reports_of_taken htakes).last fun r u h => ?_
        obtain ⟨hanswer, rfl⟩ := h
        rw [hanswer]
        exact .pure (.of_takes ht fun n hn => List.mem_singleton.mp hn ▸ htakes)
      · rw [if_neg htaken, FnDef.insideFaults, ← List.append_assoc]
        have hparams : ∀ p ∈ f.params, p.name.text ≠ Symbol.returnValueName :=
          fun p hp => hnames p.name (.param hp rfl)
        refine (FnDef.enter_reports_of_free ht hparams fun h => htaken ((hearlier _).mp h)).seq ?_
        rintro r v ⟨scope, hentered⟩
        rw [hentered.answer, hentered.openBrace, hentered.body]
        have hentry := hentered.inside (.refl hentered.nested)
        obtain ⟨-, hbody⟩ := List.pairwise_cons.mp hapart
        refine (Declaring.block_reports hentered.nested hentered.known hentered.root hapart
          (fun b hb => hentry.free nofun (hfree b hb)) ?_).last fun _ w h => ?_
        · intro t scope ht hs hroot hfree hearlier
          refine Stmt.declareAll_reports ht hs hbody hfree hearlier ?_
          exact fun s _ _ _ ht hs => Stmt.declare_reports rfl ht hs hroot
        · exact .pure (hentered.inside h)

theorem Global.declareAll_reports {gs : List Global} (ht : t.Nested)
    (hapart : Token.Apart (gs.flatMap Global.braces))
    (hfree : ∀ b ∈ gs.flatMap Global.braces, t.Free b)
    (hnames : ∀ g ∈ gs, ∀ name, g.Declares name → name.text ≠ Symbol.returnValueName)
    (hearlier : t.HasTaken .global earlier) :
    (declareAll types gs).Reports t (faultsAll types earlier gs) fun _ _ => True := by
  induction gs generalizing t earlier with
  | nil => exact .pure trivial
  | cons g gs ih =>
      obtain ⟨hapartg, hapartgs, hcross⟩ := List.pairwise_append.mp hapart
      rw [List.flatMap_cons, List.forall_mem_append] at hfree
      rw [List.forall_mem_cons] at hnames
      refine (declare_reports ht hapartg hfree.1 hnames.1 hearlier).seq fun _ u hfilled => ?_
      have hfree' : ∀ b ∈ gs.flatMap Global.braces, u.Free b := fun b hb =>
        hfilled.free (fun b' hb' => hcross b' hb' b hb) (hfree.2 b hb)
      exact (ih hfilled.evolves.nested hapartgs hfree' hnames.2 (hearlier.fill hfilled)).last
        fun _ _ _ => .pure trivial

/-- The first analysis reports the faults of a program whose blocks begin at places of their
own. -/
theorem Program.declare_reports {p : Program}
    (hapart : Token.Apart (p.globals.flatMap Global.braces))
    (hnames : ∀ g ∈ p.globals, ∀ name, g.Declares name → name.text ≠ Symbol.returnValueName) :
    (p.declare types .empty).diagnostics = p.declarationFaults types := by
  have hearlier : SymbolTable.empty.HasTaken .global [] := by
    intro n
    unfold SymbolTable.Takes
    simp
  have hglobals : (Global.declareAll types p.globals).Reports .empty _ _ :=
    Global.declareAll_reports SymbolTable.nested_empty hapart
      (fun _ _ _ _ => SymbolTable.subScope?_empty) hnames hearlier
  exact (hglobals.last fun _ _ _ => .pure (Q := fun _ _ => True) trivial).diagnostics

/-- On the program of a source, the first analysis reports exactly the faults of its
declarations, in order. -/
theorem Program.diagnostics_declare {source : String} {tokens : List Token} {p : Program}
    (hsource : Token.ofSource source = .ok tokens) (hp : Program.ofTokens tokens = .ok p) :
    ((p.declare .primitives).run .empty).diagnostics = p.declarationFaults .primitives :=
  declare_reports (apart_braces hsource hp) fun _ hg _ => name_ne_returnValueName hsource hp hg

/-- Types that are not known or have no values, names that are taken by a definition, by a
parameter and in an unbraced branch, a name that is hidden in a block, and a break behind a
loop. The second function of one name is not looked into. -/
theorem Program.diagnostics_declare_of_faults :
    let source := "int g; void g; any f(int a, int a)\x7b int x; if (true) int x; \x7b int x; \x7d \x7d" ++
      "int f()\x7b int y; int y; \x7d void h()\x7b while (true) break; break; \x7d"
    let faults : List Diagnostic :=
      [⟨.invalidType "void", ⟨1, 8⟩⟩, ⟨.unknownType "any", ⟨1, 16⟩⟩,
        ⟨.parameterAlreadyDeclared "a" "f", ⟨1, 33⟩⟩, ⟨.variableAlreadyDeclared "x", ⟨1, 58⟩⟩,
        ⟨.functionAlreadyDeclared "f", ⟨1, 77⟩⟩, ⟨.breakOutsideLoop, ⟨1, 128⟩⟩]
    ∃ tokens p, Token.ofSource source = .ok tokens ∧ Program.ofTokens tokens = .ok p ∧
      ((p.declare .primitives).run .empty).diagnostics = p.declarationFaults .primitives ∧
      p.declarationFaults .primitives = faults := by
  intro source faults
  have hfaults : ((Token.ofSource source).bind Program.ofTokens).map
      (fun p => p.declarationFaults .primitives) = .ok faults := by decide +kernel
  obtain ⟨tokens, p, hsource, hp, hfaults⟩ := exists_of_source hfaults
  exact ⟨tokens, p, hsource, hp, diagnostics_declare hsource hp, hfaults⟩

end ScriptFront
