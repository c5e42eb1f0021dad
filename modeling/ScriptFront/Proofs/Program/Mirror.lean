import ScriptFront.Program.Cleanup
import ScriptFront.Proofs.Program.Housed
import ScriptFront.Proofs.Program.Names
import ScriptFront.Proofs.SymbolTable.Alike
import ScriptFront.Proofs.SymbolTable.Layout
import ScriptFront.Proofs.Token.Layout

/-!
# The symbol table mirrors the program

A run of the first analysis that reports nothing opens one scope for each function and
one for each block, and adds one symbol for each declaration and one for the result of
each function. They are numbered in the order of the program. A scope is never taken for
two blocks, because no two blocks begin at the same place.
-/
namespace ScriptFront

/-! ## What a program opens and declares -/

namespace Stmt

/-- The braces that open the blocks in a statement, in order. -/
def braces : Stmt → List Token
  | whileLoop _ body _ => body.braces
  | ifThen _ thenBranch _ => thenBranch.braces
  | ifThenElse _ thenBranch elseBranch _ => thenBranch.braces ++ elseBranch.braces
  | block statements openBrace => openBrace :: bracesAll statements
  | _ => []
where
  bracesAll : List Stmt → List Token
    | [] => []
    | s :: ss => s.braces ++ bracesAll ss

/-- The names of the scopes of the blocks in a statement, in order, each with the scope
around it. The first one has the number `next`. -/
def opened (scope : ScopeId) (next : Nat) : Stmt → List (String × ScopeId)
  | whileLoop _ body _ => body.opened scope next
  | ifThen _ thenBranch _ => thenBranch.opened scope next
  | ifThenElse _ thenBranch elseBranch _ =>
      thenBranch.opened scope next ++ elseBranch.opened scope (next + thenBranch.braces.length)
  | block statements openBrace =>
      (blockScopeName openBrace, scope) :: openedAll ⟨next⟩ (next + 1) statements
  | _ => []
where
  openedAll (scope : ScopeId) (next : Nat) : List Stmt → List (String × ScopeId)
    | [] => []
    | s :: ss => s.opened scope next ++ openedAll scope (next + s.braces.length) ss

/-- The symbols of the variables in a statement, in order. Scopes are numbered from
`next` on. -/
def entries (scope : ScopeId) (next : Nat) : Stmt → List Entry
  | whileLoop _ body _ => body.entries scope next
  | ifThen _ thenBranch _ => thenBranch.entries scope next
  | ifThenElse _ thenBranch elseBranch _ =>
      thenBranch.entries scope next ++ elseBranch.entries scope (next + thenBranch.braces.length)
  | block statements _ => entriesAll ⟨next⟩ (next + 1) statements
  | varDecl type name _ symbol? =>
      [⟨.node symbol?,
        { name := name.text, kind := .localVariable, declaration := name,
          type? := type.resolved?, scope }⟩]
  | _ => []
where
  entriesAll (scope : ScopeId) (next : Nat) : List Stmt → List Entry
    | [] => []
    | s :: ss => s.entries scope next ++ entriesAll scope (next + s.braces.length) ss

end Stmt

/-- The symbol of a parameter in the scope of its function. -/
def Param.entry (scope : ScopeId) (p : Param) : Entry :=
  ⟨.node p.symbol?,
    { name := p.name.text, kind := .parameter, declaration := p.name, type? := p.type.resolved?,
      scope }⟩

namespace FnDef

/-- The names and types of the parameters, in order. -/
def signature (f : FnDef) : List SignatureEntry :=
  f.params.map fun p => (p.name.text, p.type.resolved?)

/-- The symbols of a function without those of its body: its own, that of its result, and
those of its parameters. The scope of the function has the number `next`. -/
def headEntries (next : Nat) (f : FnDef) : List Entry :=
  ⟨.node f.symbol?,
      { name := f.name.text, kind := .function, declaration := f.name,
        type? := f.returnType.resolved?, params := f.signature, scope := .global }⟩ ::
    ⟨.result,
      { name := Symbol.returnValueName, kind := .returnValue, declaration := f.name,
        type? := f.returnType.resolved?, scope := ⟨next⟩ }⟩ ::
    f.params.map (Param.entry ⟨next⟩)

/-- The symbols of a function. The scope of its body comes behind that of the function. -/
def entries (next : Nat) (f : FnDef) : List Entry :=
  f.headEntries next ++ Stmt.entries.entriesAll ⟨next + 1⟩ (next + 2) f.body

/-- The names of the scopes of a function: its own, that of its body, and those of the
blocks inside. -/
def opened (next : Nat) (f : FnDef) : List (String × ScopeId) :=
  (f.name.text, .global) :: (Stmt.blockScopeName f.openBrace, ⟨next⟩) ::
    Stmt.opened.openedAll ⟨next + 1⟩ (next + 2) f.body

end FnDef

namespace Global

/-- The braces that open the blocks in a definition, in order. -/
def braces : Global → List Token
  | function f => f.openBrace :: Stmt.braces.bracesAll f.body
  | var _ => []

def opened (next : Nat) : Global → List (String × ScopeId)
  | function f => f.opened next
  | var _ => []

def entries (next : Nat) : Global → List Entry
  | function f => f.entries next
  | var v =>
      [⟨.node v.symbol?,
        { name := v.name.text, kind := .globalVariable, declaration := v.name,
          type? := v.type.resolved?, scope := .global }⟩]

def openedAll (next : Nat) : List Global → List (String × ScopeId)
  | [] => []
  | g :: gs => g.opened next ++ openedAll (next + (g.opened next).length) gs

def entriesAll (next : Nat) : List Global → List Entry
  | [] => []
  | g :: gs => g.entries next ++ entriesAll (next + (g.opened next).length) gs

end Global

/-- The table has a scope for each function and each block of the program and a symbol for
each declaration and each result, in order, and every declaration carries the number of
its symbol. Whatever is in a scope is found there under its name. -/
structure Program.MirroredBy (p : Program) (t : SymbolTable) : Prop where
  layout : t.layout =
    ("global", none) :: (Global.openedAll 1 p.globals).map fun o => (o.1, some o.2)
  symbols : t.symbols.toList = (Global.entriesAll 1 p.globals).map Entry.symbol
  carried (i : Nat) (e : Entry) :
    (Global.entriesAll 1 p.globals)[i]? = some e → e.origin.Carries ⟨i⟩
  nested : t.Nested

/-! ## Statements -/

variable {types : TypeTable} {t u : SymbolTable} {scope : ScopeId} {loops : ℕ}

theorem Stmt.length_openedAll {ss : List Stmt} {next : ℕ}
    (ih : ∀ s ∈ ss, ∀ scope next, (s.opened scope next).length = s.braces.length) :
    (opened.openedAll scope next ss).length = (braces.bracesAll ss).length := by
  induction ss generalizing next with
  | nil => rfl
  | cons s ss ihs =>
      rw [opened.openedAll, braces.bracesAll, List.length_append, List.length_append,
        ih s (by simp), ihs fun s hs => ih s (by simp [hs])]

@[simp] theorem Stmt.length_opened (s : Stmt) (scope : ScopeId) (next : ℕ) :
    (s.opened scope next).length = s.braces.length := by
  induction s using Stmt.tree_induction generalizing scope next with
  | empty | breakLoop | assign | returnValue | varDecl | call => rfl
  | whileLoop condition body token ih => exact ih scope next
  | ifThen condition thenBranch token ih => exact ih scope next
  | ifThenElse condition thenBranch elseBranch token ihthen ihelse =>
      rw [opened, braces, List.length_append, List.length_append, ihthen, ihelse]
  | block statements openBrace ih =>
      rw [opened, braces, List.length_cons, List.length_cons, length_openedAll ih]

theorem Stmt.exists_of_mem_openedAll {ss : List Stmt} {next : ℕ} {o : String × ScopeId}
    (ih : ∀ s ∈ ss, ∀ scope next, o ∈ s.opened scope next →
      ∃ b ∈ s.braces, o.1 = blockScopeName b) (h : o ∈ opened.openedAll scope next ss) :
    ∃ b ∈ braces.bracesAll ss, o.1 = blockScopeName b := by
  induction ss generalizing next with
  | nil => cases h
  | cons s ss ihs =>
      rcases List.mem_append.mp h with h | h
      · obtain ⟨b, hb, hname⟩ := ih s (by simp) _ _ h
        exact ⟨b, List.mem_append_left _ hb, hname⟩
      · obtain ⟨b, hb, hname⟩ := ihs (fun s hs => ih s (by simp [hs])) h
        exact ⟨b, List.mem_append_right _ hb, hname⟩

/-- The scopes in a statement have the names of its blocks. -/
theorem Stmt.exists_of_mem_opened {s : Stmt} {next : ℕ} {o : String × ScopeId}
    (h : o ∈ s.opened scope next) : ∃ b ∈ s.braces, o.1 = blockScopeName b := by
  induction s using Stmt.tree_induction generalizing scope next with
  | empty | breakLoop | assign | returnValue | varDecl | call => cases h
  | whileLoop condition body token ih => exact ih h
  | ifThen condition thenBranch token ih => exact ih h
  | ifThenElse condition thenBranch elseBranch token ihthen ihelse =>
      rcases List.mem_append.mp h with h | h
      · obtain ⟨b, hb, hname⟩ := ihthen h
        exact ⟨b, List.mem_append_left _ hb, hname⟩
      · obtain ⟨b, hb, hname⟩ := ihelse h
        exact ⟨b, List.mem_append_right _ hb, hname⟩
  | block statements openBrace ih =>
      rcases List.mem_cons.mp h with rfl | h
      · exact ⟨openBrace, by simp [braces], rfl⟩
      · obtain ⟨b, hb, hname⟩ := exists_of_mem_openedAll (fun s hs _ _ => ih s hs) h
        exact ⟨b, List.mem_cons_of_mem _ hb, hname⟩

/-- No scope has the name of a block that begins with the brace, but perhaps one in the
global scope. -/
def SymbolTable.Free (t : SymbolTable) (openBrace : Token) : Prop :=
  ∀ scope, scope ≠ .global → t.subScope? scope (Stmt.blockScopeName openBrace) = none

theorem SymbolTable.Records.free {opened : List (String × ScopeId)} {entries : List Entry}
    {b : Token} (h : t.Records u opened entries) (bs : List Token) (ht : t.Nested) (hu : u.Nested)
    (hopened : ∀ o ∈ opened, o.2 = .global ∨ ∃ b ∈ bs, o.1 = Stmt.blockScopeName b)
    (hne : ∀ b' ∈ bs, b'.position ≠ b.position) (hfree : t.Free b) : u.Free b := by
  intro scope hroot
  cases hc : u.subScope? scope (Stmt.blockScopeName b) with
  | none => rfl
  | some inner =>
      obtain ⟨hparent, hname⟩ := hu.child hc
      have hentry := getElem?_layout u inner
      rw [hname, hparent, Option.map_some, h.layout, List.getElem?_append] at hentry
      split_ifs at hentry with hlt
      · rw [getElem?_layout] at hentry
        obtain ⟨name, hname', heq⟩ := Option.map_eq_some_iff.mp hentry
        obtain ⟨rfl, hparent'⟩ := Prod.mk.inj heq
        have := ht.subScope?_of_parent? hparent' hname'
        rw [hfree scope hroot] at this
        cases this
      · obtain ⟨o, ho, heq⟩ := List.mem_map.mp (List.mem_of_getElem? hentry)
        obtain ⟨honame, hoscope⟩ := Prod.mk.inj heq
        rcases hopened o ho with hglobal | ⟨b', hb', hb'name⟩
        · exact absurd ((Option.some.inj hoscope).symm.trans hglobal) hroot
        · exact absurd (Stmt.blockScopeName_inj.mp (hb'name.symm.trans honame)) (hne b' hb')

theorem Declaring.blockScope?_opens {name : String} (hs : t.Known scope)
    (hfree : t.subScope? scope name = none) : (blockScope? scope name).Leads t fun inner? u =>
      ∃ inner, inner? = some inner ∧ t.Opens scope name inner u := by
  obtain ⟨inner, u, heq, ⟨-, hinner⟩ | hopens⟩ := blockScope?_eq hs name
  · rw [hfree] at hinner
    cases hinner
  · intro _
    rw [heq]
    exact ⟨inner, rfl, hopens⟩

/-- What a clean run from `t` leaves of a statement: its blocks and its variables have been
added to the table. -/
structure Stmt.Recorded (scope : ScopeId) (t : SymbolTable) (s s' : Stmt) (u : SymbolTable) :
    Prop where
  evolves : t.Evolves u
  records : t.Records u (s'.opened scope t.scopes.size) (s'.entries scope t.scopes.size)
  braces : s'.braces = s.braces

/-- What a clean run from `t` leaves of the statements of a list. -/
structure Stmt.AllRecorded (scope : ScopeId) (t : SymbolTable) (ss ss' : List Stmt)
    (u : SymbolTable) : Prop where
  evolves : t.Evolves u
  records : t.Records u (Stmt.opened.openedAll scope t.scopes.size ss')
    (Stmt.entries.entriesAll scope t.scopes.size ss')
  braces : Stmt.braces.bracesAll ss' = Stmt.braces.bracesAll ss

/-- The braces are at different places. -/
def Token.Apart (bs : List Token) : Prop := bs.Pairwise fun a b => a.position ≠ b.position

theorem Stmt.Recorded.free {s s' : Stmt} {b : Token} (h : s.Recorded scope t s' u)
    (ht : t.Nested) (hne : ∀ b' ∈ s.braces, b'.position ≠ b.position) (hfree : t.Free b) :
    u.Free b := by
  refine h.records.free _ ht h.evolves.nested ?_ hne hfree
  intro o ho
  obtain ⟨b', hb', hname⟩ := exists_of_mem_opened ho
  exact .inr ⟨b', h.braces ▸ hb', hname⟩

theorem Stmt.declareAll_records {ss : List Stmt} (ht : t.Nested) (hs : t.Known scope)
    (hapart : Token.Apart (braces.bracesAll ss)) (hfree : ∀ b ∈ braces.bracesAll ss, t.Free b)
    (ih : ∀ s ∈ ss, ∀ {t : SymbolTable}, t.Nested → t.Known scope → Token.Apart s.braces →
      (∀ b ∈ s.braces, t.Free b) →
      (s.declare types scope loops).Leads t (s.Recorded scope t)) :
    (Stmt.declare.declareAll types scope loops ss).Leads t (Stmt.AllRecorded scope t ss) := by
  induction ss generalizing t with
  | nil => exact .pure ⟨ht.refl, .refl t, rfl⟩
  | cons s ss ihs =>
      obtain ⟨hfirst, hrest, hne⟩ := List.pairwise_append.mp hapart
      unfold Stmt.declare.declareAll
      refine Declaring.Leads.seq (ih s (by simp) ht hs hfirst
        fun b hb => hfree b (List.mem_append_left _ hb)) ?_
      intro s' u hs'
      refine Declaring.Leads.seq (ihs hs'.evolves.nested (hs'.evolves.known hs) hrest ?_
        fun s hs => ih s (by simp [hs])) ?_
      · intro b hb
        exact hs'.free ht (fun b' hb' => hne b' hb' b hb) (hfree b (List.mem_append_right _ hb))
      · intro ss' v hss'
        apply Declaring.Leads.pure
        have hsize := hs'.records.scopes_size
        rw [length_opened] at hsize
        have hrecords := hs'.records.trans hss'.records
        rw [hsize] at hrecords
        exact ⟨hs'.evolves.trans hss'.evolves, hrecords, congrArg₂ _ hs'.braces hss'.braces⟩

/-- What a clean run from `t` leaves of a block: its scope comes first, and in it what is
in its statements. -/
theorem Declaring.block_records {ss : List Stmt} {openBrace : Token} (ht : t.Nested)
    (hs : t.Known scope) (hroot : scope ≠ .global)
    (hapart : Token.Apart (openBrace :: Stmt.braces.bracesAll ss))
    (hfree : ∀ b ∈ openBrace :: Stmt.braces.bracesAll ss, t.Free b)
    (ih : ∀ s ∈ ss, ∀ {t : SymbolTable} {scope : ScopeId}, t.Nested → t.Known scope →
      scope ≠ .global → Token.Apart s.braces → (∀ b ∈ s.braces, t.Free b) →
      (s.declare types scope loops).Leads t (s.Recorded scope t)) :
    (Declaring.block types scope loops openBrace ss).Leads t fun ss' u => t.Evolves u ∧
      t.Records u ((Stmt.blockScopeName openBrace, scope) ::
          Stmt.opened.openedAll ⟨t.scopes.size⟩ (t.scopes.size + 1) ss')
        (Stmt.entries.entriesAll ⟨t.scopes.size⟩ (t.scopes.size + 1) ss') ∧
      Stmt.braces.bracesAll ss' = Stmt.braces.bracesAll ss := by
  obtain ⟨hne, hrest⟩ := List.pairwise_cons.mp hapart
  refine Leads.seq (blockScope?_opens hs (hfree openBrace (by simp) scope hroot)) ?_
  rintro _ u ⟨inner, rfl, hopens⟩
  have hevolves := hopens.evolve ht fun h => absurd h hroot
  have hbelow := hevolves.nested.inner_ne_global hopens.opened
  have hrecords := SymbolTable.Records.of_opens hopens
  refine Leads.mono (Stmt.declareAll_records hevolves.nested
    (hevolves.nested.known_inner hopens.opened) hrest ?_
    fun s hs _ ht hk => ih s hs ht hk hbelow) ?_
  · intro b hb
    refine hrecords.free [openBrace] ht hevolves.nested ?_ ?_ (hfree b (by simp [hb]))
    · simp
    · simpa using hne b hb
  · intro ss' v hss'
    have hall := hrecords.trans hss'.records
    obtain rfl := hopens.inner_eq
    rw [hopens.size] at hall
    exact ⟨hevolves.trans hss'.evolves, hall, hss'.braces⟩

theorem Stmt.declare_records {s : Stmt} (ht : t.Nested) (hs : t.Known scope)
    (hroot : scope ≠ .global) (hapart : Token.Apart s.braces)
    (hfree : ∀ b ∈ s.braces, t.Free b) :
    (s.declare types scope loops).Leads t (s.Recorded scope t) := by
  induction s using Stmt.tree_induction generalizing t scope loops with
  | empty token => exact .pure ⟨ht.refl, .refl t, rfl⟩
  | breakLoop token =>
      unfold Stmt.declare
      dsimp only
      split_ifs with hloops
      · exact .bind .report
      · exact .pure ⟨ht.refl, .refl t, rfl⟩
  | whileLoop condition body token ih =>
      unfold Stmt.declare
      refine Declaring.Leads.seq (ih ht hs hroot hapart hfree) ?_
      intro body' u hbody
      exact .pure ⟨hbody.evolves, hbody.records, hbody.braces⟩
  | ifThen condition thenBranch token ih =>
      unfold Stmt.declare
      refine Declaring.Leads.seq (ih ht hs hroot hapart hfree) ?_
      intro then' u hthen
      exact .pure ⟨hthen.evolves, hthen.records, hthen.braces⟩
  | ifThenElse condition thenBranch elseBranch token ihthen ihelse =>
      obtain ⟨hapart₁, hapart₂, hne⟩ := List.pairwise_append.mp hapart
      unfold Stmt.declare
      refine Declaring.Leads.seq (ihthen ht hs hroot hapart₁
        fun b hb => hfree b (List.mem_append_left _ hb)) ?_
      intro then' u hthen
      refine Declaring.Leads.seq (ihelse hthen.evolves.nested (hthen.evolves.known hs) hroot
        hapart₂ ?_) ?_
      · intro b hb
        exact hthen.free ht (fun b' hb' => hne b' hb' b hb) (hfree b (List.mem_append_right _ hb))
      · intro else' v helse
        apply Declaring.Leads.pure
        have hsize := hthen.records.scopes_size
        rw [length_opened] at hsize
        have hrecords := hthen.records.trans helse.records
        rw [hsize] at hrecords
        exact ⟨hthen.evolves.trans helse.evolves, hrecords, congrArg₂ _ hthen.braces helse.braces⟩
  | block statements openBrace ih =>
      rw [declare_block]
      refine Declaring.Leads.seq (Declaring.block_records ht hs hroot hapart hfree
        fun s hs _ _ ht hk hroot => ih s hs ht hk hroot) ?_
      rintro ss' u ⟨hevolves, hrecords, hbraces⟩
      exact .pure ⟨hevolves, hrecords, congrArg (List.cons openBrace) hbraces⟩
  | assign target value => exact .pure ⟨ht.refl, .refl t, rfl⟩
  | returnValue value? token => exact .pure ⟨ht.refl, .refl t, rfl⟩
  | varDecl type name initializer? symbol? =>
      unfold Stmt.declare
      refine Declaring.Leads.seq (Declaring.newVariable?_leads _ type name) ?_
      rintro _ u ⟨resolved, id, rfl, -, hadds⟩
      exact .pure ⟨hadds.evolve ht, .of_adds hadds _ rfl, rfl⟩
  | call callee args openParen => exact .pure ⟨ht.refl, .refl t, rfl⟩

/-! ## Functions -/

theorem FnDef.declareParam_records {function : String} {p : Param} (ht : t.Nested) :
    (declareParam types scope function p).Leads t fun r u => t.Evolves u ∧
      t.Records u [] [r.1.entry scope] ∧ r.2 = some (r.1.name.text, r.1.type.resolved?) := by
  unfold declareParam
  apply Declaring.Leads.bind
  apply Declaring.Leads.ofExcept
  intro type _
  refine Declaring.Leads.seq (Declaring.newSymbol?_leads _ p.name _) ?_
  rintro _ u (⟨rfl, -⟩ | ⟨id, rfl, hadds⟩)
  · exact .bind .report
  · exact .pure ⟨hadds.evolve ht, .of_adds hadds _ rfl, rfl⟩

theorem FnDef.declareParams_records {function : String} {ps : List Param} (ht : t.Nested) :
    (declareParams types scope function ps).Leads t fun r u => t.Evolves u ∧
      t.Records u [] (r.1.map (Param.entry scope)) ∧
      r.2 = r.1.map fun p => (p.name.text, p.type.resolved?) := by
  induction ps generalizing t with
  | nil => exact .pure ⟨ht.refl, .refl t, rfl⟩
  | cons p ps ih =>
      unfold declareParams
      refine Declaring.Leads.seq (declareParam_records ht) ?_
      rintro ⟨p', entry?⟩ u ⟨hevolves, hrecords, hentry⟩
      refine Declaring.Leads.seq (ih hevolves.nested) ?_
      rintro ⟨ps', signature⟩ v ⟨hevolves', hrecords', hsignature⟩
      apply Declaring.Leads.pure
      refine ⟨hevolves.trans hevolves', hrecords.trans hrecords', ?_⟩
      dsimp only at hentry hsignature ⊢
      rw [hentry, hsignature]
      rfl

/-- A function is entered with a scope of its own, which is the next one. -/
theorem FnDef.enter_records {f : FnDef} (ht : t.Nested) :
    (f.enter types).Leads t fun r u => r.2 = some ⟨t.scopes.size⟩ ∧ t.Evolves u ∧
      t.Records u [(r.1.name.text, .global)] (r.1.headEntries t.scopes.size) ∧
      u.subScope? .global r.1.name.text = some ⟨t.scopes.size⟩ ∧
      r.1.openBrace = f.openBrace ∧ r.1.body = f.body := by
  unfold enter
  apply Declaring.Leads.bind
  apply Declaring.Leads.ofExcept
  intro result _
  refine Declaring.Leads.seq (Declaring.newSymbol?_leads _ f.name _) ?_
  rintro _ u₁ (⟨rfl, -⟩ | ⟨id, rfl, hadds⟩)
  · exact .bind .report
  have hevolves₁ := hadds.evolve ht
  apply Declaring.Leads.bind
  apply Declaring.Leads.add?
  case hnone =>
    intro (hnone : u₁.addSubScope? .global f.name.text = none)
    obtain ⟨inner, hinner⟩ := hevolves₁.nested.root.addSubScope? hnone
    rw [hadds.sub_eq] at hinner
    obtain ⟨other, hother⟩ := ht.function hinner
    have := hother.symm.trans hadds.free
    cases this
  intro scope u₂ hadd
  have hopens : u₁.Opens .global f.name.text scope u₂ := SymbolTable.opens_of_addSubScope? hadd
  have hevolves₂ := hopens.evolve hevolves₁.nested fun _ => ⟨id, hadds.declared⟩
  apply Declaring.Leads.bind
  apply Declaring.Leads.add?
  case hnone => exact fun _ => .bind .report
  intro entry u₃ hadd
  have hadds₃ : u₂.Adds scope { name := Symbol.returnValueName, kind := .returnValue,
                                declaration := f.name, type? := some result } entry u₃ :=
    SymbolTable.adds_of_addSymbol? hadd
  have hevolves₃ := hadds₃.evolve hevolves₂.nested
  refine Declaring.Leads.seq (declareParams_records hevolves₃.nested) ?_
  rintro ⟨params, signature⟩ u₄ ⟨hevolves₄, hrecords₄, hsignature⟩
  apply Declaring.Leads.bind
  apply Declaring.Leads.modify
  apply Declaring.Leads.pure
  have hrecords := (((SymbolTable.Records.of_adds hadds (.node (some id)) rfl).trans
    (.of_opens hopens)).trans (.of_adds hadds₃ .result trivial)).trans hrecords₄
  have hevolves : t.Evolves (u₄.setSignature id (some result) signature) :=
    (((hevolves₁.trans hevolves₂).trans hevolves₃).trans hevolves₄).trans
      hevolves₄.nested.evolve_setSignature
  obtain rfl : scope = ⟨t.scopes.size⟩ := congrArg ScopeId.mk (hopens.fresh.trans hadds.size)
  refine ⟨rfl, hevolves, ?_, ?_, rfl, rfl⟩
  · have hsigned := hrecords.setSignature (some result) signature hadds.fresh
    rw [show signature = _ from hsignature] at hsigned ⊢
    exact hsigned
  · exact hevolves₄.opened (hevolves₃.opened hopens.opened)

/-! ## Programs -/

theorem Global.exists_of_mem_opened {g : Global} {next : ℕ} {o : String × ScopeId}
    (h : o ∈ g.opened next) : o.2 = .global ∨ ∃ b ∈ g.braces, o.1 = Stmt.blockScopeName b := by
  cases g with
  | var v => cases h
  | function f =>
      rcases List.mem_cons.mp h with rfl | h
      · exact .inl rfl
      · have hblock : o ∈ (Stmt.block f.body f.openBrace).opened ⟨next⟩ (next + 1) := h
        exact .inr (Stmt.exists_of_mem_opened hblock)

/-- What a clean run from `t` leaves of a definition: its scopes and its symbols have been
added to the table. -/
structure Global.Recorded (t : SymbolTable) (g g' : Global) (u : SymbolTable) : Prop where
  evolves : t.Evolves u
  records : t.Records u (g'.opened t.scopes.size) (g'.entries t.scopes.size)
  braces : g'.braces = g.braces

theorem Global.Recorded.free {g g' : Global} {b : Token} (h : g.Recorded t g' u)
    (ht : t.Nested) (hne : ∀ b' ∈ g.braces, b'.position ≠ b.position) (hfree : t.Free b) :
    u.Free b := by
  refine h.records.free _ ht h.evolves.nested ?_ hne hfree
  intro o ho
  rw [← h.braces]
  exact exists_of_mem_opened ho

theorem Global.declare_records {g : Global} (ht : t.Nested) (hapart : Token.Apart g.braces)
    (hfree : ∀ b ∈ g.braces, t.Free b) :
    (g.declare types).Leads t (g.Recorded t) := by
  cases g with
  | function f =>
      rw [declare_function]
      refine Declaring.Leads.seq (FnDef.enter_records ht) ?_
      rintro ⟨f', scope?⟩ u ⟨hscope, hevolves, hrecords, hopened, hbrace, hbody⟩
      dsimp only at *
      subst hscope
      have hbraces : (function f).braces = f'.openBrace :: Stmt.braces.bracesAll f'.body := by
        rw [hbrace, hbody]
        rfl
      rw [hbraces] at hapart hfree
      refine Declaring.Leads.seq (Declaring.block_records hevolves.nested
        (hevolves.nested.known_inner hopened) (hevolves.nested.inner_ne_global hopened) hapart ?_
        fun s _ _ _ => Stmt.declare_records) ?_
      · intro b hb
        exact hrecords.free [] ht hevolves.nested (by simp) (by simp) (hfree b hb)
      · rintro body v ⟨hevolves', hrecords', hbraces'⟩
        apply Declaring.Leads.pure
        have hall := hrecords.trans hrecords'
        rw [hrecords.scopes_size] at hall
        refine ⟨hevolves.trans hevolves', hall, ?_⟩
        rw [hbraces, ← hbraces']
        rfl
  | var v =>
      unfold declare GlobalVar.declare
      dsimp only
      rw [map_eq_pure_bind]
      apply Declaring.Leads.bind
      refine Declaring.Leads.seq (Declaring.newVariable?_leads _ v.type v.name) ?_
      rintro _ u ⟨resolved, id, rfl, -, hadds⟩
      apply Declaring.Leads.pure
      apply Declaring.Leads.pure
      exact ⟨hadds.evolve ht, .of_adds hadds _ rfl, rfl⟩

theorem Global.declareAll_records {gs : List Global} (ht : t.Nested)
    (hapart : Token.Apart (gs.flatMap braces)) (hfree : ∀ b ∈ gs.flatMap braces, t.Free b) :
    (declareAll types gs).Leads t fun gs' u => t.Evolves u ∧
      t.Records u (openedAll t.scopes.size gs') (entriesAll t.scopes.size gs') := by
  induction gs generalizing t with
  | nil =>
      unfold declareAll
      exact .pure ⟨ht.refl, .refl t⟩
  | cons g gs ih =>
      rw [List.flatMap_cons] at hapart hfree
      obtain ⟨hfirst, hrest, hne⟩ := List.pairwise_append.mp hapart
      unfold declareAll
      refine Declaring.Leads.seq (declare_records ht hfirst
        fun b hb => hfree b (List.mem_append_left _ hb)) ?_
      intro g' u hg
      refine Declaring.Leads.seq (ih hg.evolves.nested hrest ?_) ?_
      · intro b hb
        exact hg.free ht (fun b' hb' => hne b' hb' b hb) (hfree b (List.mem_append_right _ hb))
      · rintro gs' v ⟨hevolves, hrecords⟩
        apply Declaring.Leads.pure
        have hall := hg.records.trans hrecords
        rw [hg.records.scopes_size] at hall
        exact ⟨hg.evolves.trans hevolves, hall⟩

/-- A clean run through a program, no two blocks of which begin at the same place, leaves
a table that mirrors the program. -/
theorem Program.declare_mirrors {p : Program}
    (hapart : Token.Apart (p.globals.flatMap Global.braces)) :
    (p.declare types).Leads .empty fun p' u => p'.MirroredBy u := by
  unfold declare
  refine Declaring.Leads.seq (Global.declareAll_records SymbolTable.nested_empty hapart ?_) ?_
  · intro b _ scope _
    exact SymbolTable.subScope?_empty
  · rintro gs u ⟨hevolves, hrecords⟩
    apply Declaring.Leads.pure
    refine ⟨hrecords.layout, hrecords.symbols, ?_, hevolves.nested⟩
    intro i e he
    have hcarried := hrecords.carried i e he
    rwa [show SymbolTable.empty.symbols.size = 0 from rfl, Nat.zero_add] at hcarried

theorem Global.exists_of_mem_openedAll {gs : List Global} {next : ℕ} {o : String × ScopeId}
    (h : o ∈ openedAll next gs) : ∃ g ∈ gs, ∃ next, o ∈ g.opened next := by
  induction gs generalizing next with
  | nil => cases h
  | cons g gs ih =>
      rcases List.mem_append.mp h with h | h
      · exact ⟨g, by simp, next, h⟩
      · obtain ⟨g', hg', hmem⟩ := ih h
        exact ⟨g', List.mem_cons_of_mem _ hg', hmem⟩

theorem Global.exists_of_mem_entriesAll {gs : List Global} {next : ℕ} {e : Entry}
    (h : e ∈ entriesAll next gs) : ∃ g ∈ gs, ∃ next, e ∈ g.entries next := by
  induction gs generalizing next with
  | nil => cases h
  | cons g gs ih =>
      rcases List.mem_append.mp h with h | h
      · exact ⟨g, by simp, next, h⟩
      · obtain ⟨g', hg', hmem⟩ := ih h
        exact ⟨g', List.mem_cons_of_mem _ hg', hmem⟩

namespace Program.MirroredBy

variable {p : Program} (h : p.MirroredBy t)
include h

/-- Every scope but the global one is opened by a definition. -/
theorem exists_opened {name : String} (hname : t.name? scope = some name) :
    name = "global" ∨ ∃ g ∈ p.globals, ∃ next, ∃ o ∈ g.opened next, o.1 = name := by
  have hlayout := t.getElem?_layout scope
  rw [hname, h.layout] at hlayout
  rcases List.mem_cons.mp (List.mem_of_getElem? hlayout) with heq | hmem
  · exact .inl (Prod.mk.inj heq).1
  · obtain ⟨o, ho, heq⟩ := List.mem_map.mp hmem
    obtain ⟨g, hg, next, hopened⟩ := Global.exists_of_mem_openedAll ho
    exact .inr ⟨g, hg, next, o, hopened, (Prod.mk.inj heq).1⟩

theorem exists_entry {id : SymbolId} {symbol : Symbol} (hs : t.symbol? id = some symbol) :
    ∃ g ∈ p.globals, ∃ next, ∃ e ∈ g.entries next, e.symbol = symbol := by
  have hlist : t.symbols.toList[id.index]? = some symbol := by
    rw [Array.getElem?_toList]
    exact hs
  rw [h.symbols] at hlist
  obtain ⟨e, he, heq⟩ := List.mem_map.mp (List.mem_of_getElem? hlist)
  obtain ⟨g, hg, next, hentries⟩ := Global.exists_of_mem_entriesAll he
  exact ⟨g, hg, next, e, hentries, heq⟩

end Program.MirroredBy

/-! ## Sources -/

variable {expr : Expr → List Token → Prop} {w : List Token}

def StmtPhrase.braces : StmtPhrase → List Token
  | stmt s => s.braces
  | stmts ss => Stmt.braces.bracesAll ss

/-- The braces of the blocks in a phrase are among its tokens, in the same order. -/
theorem StmtPhrase.SpelledBy.braces_sublist {p : StmtPhrase} (h : p.SpelledBy expr w) :
    p.braces.Sublist w := by
  induction h with
  | call | breakLoop | returnValue | varDecl | assign | empty | nil => exact List.nil_sublist _
  | whileLoop _ _ _ _ _ ih | ifThen _ _ _ _ _ ih =>
      exact (((ih.cons _).trans (List.sublist_append_right _ _)).cons _).cons _
  | @ifThenElse _ _ _ other _ _ _ _ _ _ _ _ _ _ _ _ _ _ ihthen ihelse =>
      have hbranches := ihthen.append (ihelse.cons other)
      exact (((hbranches.cons _).trans (List.sublist_append_right _ _)).cons _).cons _
  | block _ _ _ ih => exact (ih.trans (List.sublist_append_left _ _)).cons_cons _
  | cons _ _ ihs ihss => exact ihs.append ihss

theorem Global.SpelledBy.braces_sublist {g : Global} (h : g.SpelledBy expr w) :
    g.braces.Sublist w := by
  cases h with
  | var => exact List.nil_sublist _
  | function hf =>
      cases hf with
      | intro _ _ _ _ _ hbody =>
          refine .trans (.cons _ (.cons _ ?_)) (List.sublist_append_right _ _)
          exact (hbody.stmt.braces_sublist.cons _).trans (List.sublist_append_right _ _)

theorem Program.SpelledBy.braces_sublist {p : Program} (h : p.SpelledBy expr w) :
    (p.globals.flatMap Global.braces).Sublist w := by
  unfold Program.SpelledBy at h
  generalize p.globals = gs at h ⊢
  induction h with
  | nil => exact List.Sublist.refl _
  | cons hg _ ih => exact hg.braces_sublist.append ih

/-- The tokens of a source are at different places. -/
theorem Token.apart_of_source {source : String} {body : List Token} {place : Position}
    (h : ofSource source = .ok (body ++ [endOfInput place])) : Apart body := by
  have hlaid : Laid [] source.toList (body ++ [endOfInput place]) := laid_of_scan rfl h
  refine (List.pairwise_append.mp hlaid.increasing).1.imp fun hlt heq => ?_
  rw [heq] at hlt
  exact Position.lt_irrefl _ hlt

/-- No two blocks of the program of a source begin at the same place. -/
theorem Program.apart_braces {source : String} {tokens : List Token} {p : Program}
    (hsource : Token.ofSource source = .ok tokens) (hp : Program.ofTokens tokens = .ok p) :
    Token.Apart (p.globals.flatMap Global.braces) := by
  obtain ⟨body, place, rfl, -, hspelled⟩ := exists_spelledBy hsource hp
  exact (Token.apart_of_source hsource).sublist hspelled.braces_sublist

/-- Where the first analysis reports nothing on the program of a source, the table has
one scope for each function and each block and one symbol for each declaration and each
result. The declarations carry the numbers of their symbols, and their types are found. -/
theorem Program.mirroredBy_of_declare {source : String} {tokens : List Token}
    {p p' : Program} (hsource : Token.ofSource source = .ok tokens)
    (hp : Program.ofTokens tokens = .ok p)
    (hclean : p.declare types .empty = ⟨(p', t), []⟩) :
    p'.MirroredBy t ∧ List.Forall₂ (Global.Declared types t) p.globals p'.globals := by
  have hmirrors := (declare_mirrors (apart_braces hsource hp)).of_clean hclean
  have hdeclared := Declaring.Leads.of_clean
    (declare_leads fun g hg name => name_ne_returnValueName hsource hp hg) hclean
  exact ⟨hmirrors, hdeclared.2⟩

/-- A function with a variable in a block and an empty block behind it, and a function
without statements. -/
theorem Program.mirroredBy_of_blocks :
    let source := "int g; void f(int x)\x7b\x7bint x; \x7b\x7d\x7d\x7d void h()\x7b\x7d"
    ∃ tokens p p' t, Token.ofSource source = .ok tokens ∧ Program.ofTokens tokens = .ok p ∧
      p.declare .primitives .empty = ⟨(p', t), []⟩ ∧ p'.MirroredBy t ∧
      List.Forall₂ (Global.Declared .primitives t) p.globals p'.globals := by
  intro source
  have hclean : ((Token.ofSource source).bind Program.ofTokens).map
      (fun p => (p.declare .primitives .empty).diagnostics) = .ok [] := by decide +kernel
  obtain ⟨tokens, p, hsource, hp, hclean⟩ := exists_of_source hclean
  have hdeclare : p.declare .primitives .empty = ⟨((p.declare .primitives .empty).value.1,
      (p.declare .primitives .empty).value.2), []⟩ :=
    Reported.ext rfl hclean
  exact ⟨tokens, p, _, _, hsource, hp, hdeclare, mirroredBy_of_declare hsource hp hdeclare⟩

/-! ## Blocks after cleanup -/

theorem Stmt.bracesAll_cleanupList_sublist {ss : List Stmt}
    (ih : ∀ s ∈ ss, s.cleanup.value.braces.Sublist s.braces) :
    (braces.bracesAll (cleanup.cleanupList ss).value).Sublist (braces.bracesAll ss) := by
  induction ss with
  | nil => exact List.Sublist.refl _
  | cons s ss ihs =>
      have hrest := ihs fun s hs => ih s (by simp [hs])
      unfold cleanup.cleanupList consUnlessEmpty
      split_ifs
      · exact hrest.trans (List.sublist_append_right _ _)
      · exact (ih s (by simp)).append hrest

theorem Stmt.braces_cleanup_sublist (s : Stmt) : s.cleanup.value.braces.Sublist s.braces := by
  induction s using tree_induction with
  | empty | breakLoop | assign | returnValue | varDecl | call => exact List.Sublist.refl _
  | whileLoop condition body token ih => exact ih
  | ifThen condition thenBranch token ih => exact ih
  | ifThenElse condition thenBranch elseBranch token ihthen ihelse => exact ihthen.append ihelse
  | block statements openBrace ih => exact (bracesAll_cleanupList_sublist ih).cons_cons _

theorem Program.braces_cleanup_sublist (p : Program) :
    (p.cleanup.value.globals.flatMap Global.braces).Sublist (p.globals.flatMap Global.braces) := by
  change ((Global.cleanupAll p.globals).value.flatMap Global.braces).Sublist _
  induction p.globals with
  | nil => exact List.Sublist.refl _
  | cons g gs ih =>
      refine List.Sublist.append ?_ ih
      cases g with
      | var => exact List.Sublist.refl _
      | function f =>
          exact (Stmt.bracesAll_cleanupList_sublist fun s _ => s.braces_cleanup_sublist).cons_cons _

/-- A clean run through what cleanup has left of the program of a source leaves a table
that mirrors it. -/
theorem Program.declare_cleanup_mirrors {source : String} {tokens : List Token} {p : Program}
    (hsource : Token.ofSource source = .ok tokens) (hp : Program.ofTokens tokens = .ok p) :
    (p.cleanup.value.declare types).Leads .empty fun p' u => p'.MirroredBy u :=
  declare_mirrors ((apart_braces hsource hp).sublist p.braces_cleanup_sublist)

end ScriptFront
