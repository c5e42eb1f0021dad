import Mathlib
import ScriptFront.Proofs.Program.AlongsideChecks
import ScriptFront.Proofs.Program.Bodies
import ScriptFront.Proofs.Program.Language
import ScriptFront.Proofs.Program.Parallel
import ScriptFront.Proofs.SymbolTable.Shared
import ScriptFront.Proofs.Tree.Alike

/-!
# Functions are checked independently

What the second analysis reports of a function depends on the function, and on what the
names in it mean in the global scope. The rest of the program has no part in it: where the
other definitions stand, how many symbols and scopes they have, and what is in the bodies
of other functions.
-/
namespace ScriptFront

variable {types : TypeTable} {p q : Program}

/-! ## One function in two programs -/

/-- What is left of a function in two tables is checked alike, if its names mean the same in
both global scopes. -/
theorem Global.Placed.check_agrees {v w : SymbolTable} {f : FnDef} {g g' : Global}
    (hg : (function f).Placed types v g) (hg' : (function f).Placed types w g')
    (hv : v.Nested) (hw : w.Nested) (hf : (function f).Fresh (function f).HasName)
    (hnames : ∀ n, (function f).HasName n → v.meaning? .global n = w.meaning? .global n) :
    (g.check types v).diagnostics = (g'.check types w).diagnostics := by
  cases hg with
  | @intro b names hb hfree hconfined hname =>
      cases hg' with
      | @intro b' names' hb' hfree' hconfined' hname' =>
          have hstart := SymbolTable.Beside.start_global hb hb' hfree hfree'
          obtain ⟨-, hbeside, htwin⟩ := declare_alongside types hstart rfl rfl hf
          have hleft : b.Between f.name.text ((function f).declare types b).value.2 v :=
            ⟨hb, (evolves_declare types hb hf.isNew).nested, hv, names, hname, hconfined⟩
          have hright : b'.Between f.name.text ((function f).declare types b').value.2 w :=
            ⟨hb', (evolves_declare types hb' hf.isNew).nested, hw, names', hname', hconfined'⟩
          obtain ⟨scope, id, hscope, hid⟩ := (declare_scope types hb hfree hf.isNew).post
          have hcorresponds := hbeside.corresponds hleft hright hnames fun s hs => by
            obtain rfl := Option.some.inj (hscope.symm.trans hs)
            exact ⟨id, hid⟩
          have hcarried := (declare_head types hb hf.isNew).post.1
          generalize ((function f).declare types b).value.1 = g at htwin hcarried
          generalize ((function f).declare types b').value.1 = g' at htwin
          cases htwin with
          | var => rfl
          | @function f₁ f₂ hf₁ hf₂ hbrace hsymbol hbody =>
              refine (Global.check_agrees hcorresponds ?_ hbrace hbody fun i hi i' hnew =>
                .inside hnew ((hcarried f₁ rfl i hi).resolve_left ?_)).diagnostics
              case refine_2 =>
                rw [Stmt.symbolsAll_of_fresh hf.2]
                exact List.not_mem_nil
              by_cases hsome : f₁.symbol?.isSome
              · rw [FnDef.scope?_of_isSome hsome, FnDef.scope?_of_isSome (hsymbol ▸ hsome), hf₁,
                  hf₂]
                exact hbeside.own_scope hleft hright
              · rw [FnDef.scope?_of_not_isSome hsome, FnDef.scope?_of_not_isSome (hsymbol ▸ hsome)]
                exact .none

namespace Program

/-! ## What is reported of each definition -/

/-- The program is read from tokens. -/
def Parsed (p : Program) : Prop :=
  ∃ body last, last.kind = .endOfInput ∧ ofTokens (body ++ [last]) = .ok p

/-- The first analysis reports nothing. -/
def CleanlyDeclared (types : TypeTable) (p : Program) : Prop :=
  (p.declare types .empty).diagnostics = []

/-- The table that the first analysis leaves. -/
def table (types : TypeTable) (p : Program) : SymbolTable := (p.declare types .empty).value.2

/-- What the second analysis reports of each definition, in order. -/
def findings (types : TypeTable) (p : Program) : List (List Diagnostic) :=
  (p.declare types .empty).value.1.globals.map fun g => (g.check types (p.table types)).diagnostics

theorem flatten_findings (types : TypeTable) (p : Program) :
    (p.findings types).flatten =
      ((p.declare types .empty).value.1.check types (p.table types)).diagnostics := by
  unfold findings check
  rw [Reported.diagnostics_bind, Reported.diagnostics_pure, List.append_nil]
  induction (p.declare types .empty).value.1.globals with
  | nil => rfl
  | cons g gs ih =>
      rw [List.map_cons, List.flatten_cons, ih]
      rw [Global.checkAll, Reported.diagnostics_bind, Reported.diagnostics_bind,
        Reported.diagnostics_pure, List.append_nil]

/-- The same is reported of the definition at `i` in `p` and of the one at `j` in `q`. -/
def SameFindings (types : TypeTable) (p : Program) (i : ℕ) (q : Program) (j : ℕ) : Prop :=
  ∃ ds, (p.findings types)[i]? = some ds ∧ (q.findings types)[j]? = some ds

/-! ## Programs with different names -/

/-- The definitions have different names, and are as the parser leaves them. -/
structure Separate (p : Program) : Prop where
  distinct : Global.Distinct .empty p.globals
  fresh : ∀ g ∈ p.globals, g.Fresh g.HasName

theorem Parsed.fresh (h : p.Parsed) : ∀ g ∈ p.globals, g.Fresh g.HasName := by
  obtain ⟨body, last, hlast, hp⟩ := h
  have hs := ParserState.ready_ofTokens body "program" hlast
  have hrun := Parser.program_recognizes _ hs
  rw [ofTokens, Parser.result] at hp
  cases hr : Parser.program (.ofTokens (body ++ [last]) "program") with
  | mk o t =>
      rw [hr] at hp hrun
      cases o with
      | noMatch => simp at hp
      | failed d => simp at hp
      | matched a =>
          obtain rfl : a = p := by simpa using hp
          obtain ⟨_, -, hspelled⟩ := hrun.sound a rfl
          intro g hg
          obtain ⟨w, hw, -⟩ := Repeated.exists_of_mem hspelled hg
          exact hw.fresh

theorem Parsed.separate (h : p.Parsed) (hclean : p.CleanlyDeclared types) : p.Separate := by
  refine ⟨?_, h.fresh⟩
  have hnew : ∀ g ∈ p.globals, g.IsNew := fun g hg => (h.fresh g hg).isNew
  apply @Global.declareAll_leads_distinct types .empty p.globals SymbolTable.nested_empty hnew
  exact (List.append_eq_nil_iff.mp hclean).1

namespace Separate

variable (hp : p.Separate) (hq : q.Separate)

include hp in
theorem declared (types : TypeTable) :
    (p.declare types .empty).diagnostics = p.globals.flatMap (Global.faults types) ∧
      (p.table types).Nested ∧
      SymbolTable.empty.Confined .global (p.globals.map fun g => g.name.text) (p.table types) ∧
      List.Forall₂ (Global.Placed types (p.table types)) p.globals
        (p.declare types .empty).value.1.globals := by
  obtain ⟨hdiagnostics, hevolves, hconfined, hplaced⟩ :=
    @Global.declareAll_distinct types .empty p.globals SymbolTable.nested_empty hp.distinct hp.fresh
  exact ⟨(List.append_nil _).trans hdiagnostics, hevolves.nested, hconfined, hplaced⟩

include hp in
theorem meaning?_name {g : Global} (hg : g ∈ p.globals) :
    (p.table types).meaning? .global g.name.text = g.meaning? types := by
  obtain ⟨-, -, -, hplaced⟩ := hp.declared types
  obtain ⟨_, -, hplace⟩ := exists_of_mem_forall₂ hplaced.flip hg
  exact hplace.meaning?_eq (hp.fresh g hg)

include hp hq

theorem sameFindings {f : FnDef} {i j : ℕ} (hi : p.globals[i]? = some (.function f))
    (hj : q.globals[j]? = some (.function f))
    (hnames : ∀ n ∈ f.names, (p.table types).meaning? .global n.text =
      (q.table types).meaning? .global n.text) :
    p.SameFindings types i q j := by
  obtain ⟨-, hnested, -, hplaced⟩ := hp.declared types
  obtain ⟨-, hnested', -, hplaced'⟩ := hq.declared types
  have hg := rel_getElem?_of_forall₂ hplaced i
  have hg' := rel_getElem?_of_forall₂ hplaced' j
  rw [hi] at hg
  rw [hj] at hg'
  unfold SameFindings findings
  rw [List.getElem?_map, List.getElem?_map]
  generalize (p.declare types .empty).value.1.globals[i]? = g? at hg
  generalize (q.declare types .empty).value.1.globals[j]? = g?' at hg'
  cases hg with
  | some hg =>
      cases hg' with
      | some hg' =>
          refine ⟨_, rfl, congrArg some (hg'.check_agrees hg hnested' hnested ?_ ?_)⟩
          · exact hp.fresh _ (List.mem_of_getElem? hi)
          · rintro _ ⟨n, hn, rfl⟩
            exact (hnames n hn).symm

theorem meaning?_eq {n : String}
    (hnames : (∃ g ∈ q.globals, g.name.text = n) → ∃ g ∈ p.globals, g.name.text = n)
    (hsame : ∀ g ∈ p.globals, ∃ g' ∈ q.globals, g.name = g'.name ∧
      g.meaning? types = g'.meaning? types) :
    (p.table types).meaning? .global n = (q.table types).meaning? .global n := by
  obtain ⟨-, -, hconfined, -⟩ := hp.declared types
  obtain ⟨-, -, hconfined', -⟩ := hq.declared types
  by_cases hn : ∃ g ∈ p.globals, g.name.text = n
  · obtain ⟨g, hg, rfl⟩ := hn
    obtain ⟨g', hg', hname, hmeaning⟩ := hsame g hg
    rw [hp.meaning?_name hg, hname, hq.meaning?_name hg', hmeaning]
  · have hempty := SymbolTable.nested_empty
    rw [hconfined.meaning?_eq hempty hempty.root, hconfined'.meaning?_eq hempty hempty.root]
    · rintro - hmem
      exact hn (hnames (List.mem_map.mp hmem))
    · rintro - hmem
      exact hn (List.mem_map.mp hmem)

end Separate

/-! ## Moved definitions and other bodies -/

theorem Separate.of_perm (hp : p.Separate) (hperm : q.globals.Perm p.globals) : q.Separate where
  distinct :=
    ⟨((hperm.map _).nodup_iff).mpr hp.distinct.nodup, fun _ _ => SymbolTable.local?_empty⟩
  fresh g hg := hp.fresh g (hperm.mem_iff.mp hg)

theorem Separate.of_sameHead (hp : p.Separate)
    (hheads : List.Forall₂ Global.SameHead p.globals q.globals)
    (hfresh : ∀ g ∈ q.globals, g.Fresh g.HasName) : q.Separate where
  distinct := by
    have hnames : (p.globals.map fun g => g.name.text) = q.globals.map fun g => g.name.text := by
      generalize p.globals = gs at hheads
      generalize q.globals = gs' at hheads
      induction hheads with
      | nil => rfl
      | cons h _ ih => exact congrArg₂ (· :: ·) (congrArg Token.text h.name_eq) ih
    exact ⟨hnames ▸ hp.distinct.nodup, fun _ _ => SymbolTable.local?_empty⟩
  fresh := hfresh

/-- Functions are checked independently. -/
structure Independent (types : TypeTable) (p : Program) : Prop where
  /-- What is reported of the program is what is reported of each definition, in order. -/
  findings : ((p.declare types .empty).value.1.check types (p.table types)).diagnostics =
    (p.findings types).flatten
  /-- A function is checked alike where its names mean the same in the global scope. -/
  names {q : Program} {f : FnDef} {i j : ℕ} : q.Parsed → q.CleanlyDeclared types →
    p.globals[i]? = some (.function f) → q.globals[j]? = some (.function f) →
    (∀ n ∈ f.names, (p.table types).meaning? .global n.text =
      (q.table types).meaning? .global n.text) → p.SameFindings types i q j
  /-- The order of the definitions does not matter. -/
  moved {q : Program} {f : FnDef} {i j : ℕ} : q.globals.Perm p.globals →
    p.globals[i]? = some (.function f) → q.globals[j]? = some (.function f) →
    q.CleanlyDeclared types ∧ p.SameFindings types i q j
  /-- The bodies of other functions do not matter. -/
  bodies {q : Program} {f : FnDef} {i : ℕ} : q.Parsed →
    List.Forall₂ Global.SameHead p.globals q.globals →
    p.globals[i]? = some (.function f) → q.globals[i]? = some (.function f) →
    p.SameFindings types i q i

/-- What the second analysis reports of a function in a program whose first analysis is
clean depends on the function and on what its names mean in the global scope. -/
theorem Parsed.independent (hp : p.Parsed) (hclean : p.CleanlyDeclared types) :
    p.Independent types where
  findings := (p.flatten_findings types).symm
  names hq hclean' hi hj hnames :=
    (hp.separate hclean).sameFindings (hq.separate hclean') hi hj hnames
  moved {q f i j} hperm hi hj := by
    have hseparate := hp.separate hclean
    have hseparate' := hseparate.of_perm hperm
    refine ⟨?_, hseparate.sameFindings hseparate' hi hj fun n _ => ?_⟩
    · have hdiagnostics := (hseparate.declared types).1
      unfold CleanlyDeclared at hclean ⊢
      rw [hclean] at hdiagnostics
      rw [(hseparate'.declared types).1, List.flatMap_eq_nil_iff]
      exact fun g hg => List.flatMap_eq_nil_iff.mp hdiagnostics.symm g (hperm.mem_iff.mp hg)
    · refine hseparate.meaning?_eq hseparate' ?_ ?_
      · exact fun ⟨g, hg, hname⟩ => ⟨g, hperm.mem_iff.mp hg, hname⟩
      · exact fun g hg => ⟨g, hperm.mem_iff.mpr hg, rfl, rfl⟩
  bodies {q f i} hq hheads hi hj := by
    have hseparate := hp.separate hclean
    have hseparate' := hseparate.of_sameHead hheads hq.fresh
    refine hseparate.sameFindings hseparate' hi hj fun n _ => ?_
    refine hseparate.meaning?_eq hseparate' ?_ ?_
    · rintro ⟨g', hg', hname⟩
      obtain ⟨g, hg, hhead⟩ := exists_of_mem_forall₂ hheads hg'
      exact ⟨g, hg, (congrArg Token.text hhead.name_eq).trans hname⟩
    · intro g hg
      obtain ⟨g', hg', hhead⟩ := exists_of_mem_forall₂ hheads.flip hg
      exact ⟨g', hg', hhead.name_eq, hhead.meaning?_eq types (hp.fresh g hg).isNew
        (hq.fresh g' hg').isNew⟩

/-- A function with a fault, moved in front of the one that it calls, and behind one with
another body. -/
theorem independent_of_moved :
    let word (text : String) (column : Nat) : Token := ⟨.identifier, text, ⟨1, column⟩⟩
    let mark (kind : TokenKind) (text : String) (column : Nat) : Token := ⟨kind, text, ⟨1, column⟩⟩
    let g (body : List Stmt) : FnDef := ⟨⟨word "void" 1, false, none⟩, word "g" 6, [],
      mark .openParen "(" 7, body, mark .openCurly "\x7b" 10, none⟩
    let f : FnDef := ⟨⟨word "void" 14, false, none⟩, word "f" 19, [], mark .openParen "(" 20,
      [.call ⟨word "g" 25, none, none⟩ [] (mark .openParen "(" 26),
        .varDecl ⟨word "int" 30, false, none⟩ (word "x" 34)
          (some (.literal (.string "a") (mark .string "a" 38) none)) none],
      mark .openCurly "\x7b" 23, none⟩
    let p : Program := ⟨[.function (g []), .function f]⟩
    let moved : Program := ⟨[.function f, .function (g [])]⟩
    let other : Program := ⟨[.function (g [.empty (mark .semicolon ";" 11)]), .function f]⟩
    p.Parsed ∧ p.CleanlyDeclared .primitives ∧
      (p.findings .primitives)[1]? = some [⟨.typeMatchError "int" "string", ⟨1, 30⟩⟩] ∧
      moved.globals.Perm p.globals ∧ p.SameFindings .primitives 1 moved 0 ∧
      other.Parsed ∧ other.CleanlyDeclared .primitives ∧
      List.Forall₂ Global.SameHead p.globals other.globals ∧
      (∀ n ∈ f.names, (p.table .primitives).meaning? .global n.text =
        (other.table .primitives).meaning? .global n.text) ∧
      p.SameFindings .primitives 1 other 1 := by
  intro word mark g f p moved other
  have hp : p.Parsed := by
    refine ⟨[word "void" 1, word "g" 6, mark .openParen "(" 7, mark .closeParen ")" 8,
      mark .openCurly "\x7b" 10, mark .closeCurly "\x7d" 12, word "void" 14, word "f" 19,
      mark .openParen "(" 20, mark .closeParen ")" 21, mark .openCurly "\x7b" 23, word "g" 25,
      mark .openParen "(" 26, mark .closeParen ")" 27, mark .semicolon ";" 28, word "int" 30,
      word "x" 34, mark .assignment "=" 36, mark .string "a" 38, mark .semicolon ";" 41,
      mark .closeCurly "\x7d" 43], .endOfInput ⟨1, 44⟩, rfl, ?_⟩
    cbv
  have hother : other.Parsed := by
    refine ⟨[word "void" 1, word "g" 6, mark .openParen "(" 7, mark .closeParen ")" 8,
      mark .openCurly "\x7b" 10, mark .semicolon ";" 11, mark .closeCurly "\x7d" 12,
      word "void" 14, word "f" 19, mark .openParen "(" 20, mark .closeParen ")" 21,
      mark .openCurly "\x7b" 23, word "g" 25, mark .openParen "(" 26, mark .closeParen ")" 27,
      mark .semicolon ";" 28, word "int" 30, word "x" 34, mark .assignment "=" 36,
      mark .string "a" 38, mark .semicolon ";" 41, mark .closeCurly "\x7d" 43],
      .endOfInput ⟨1, 44⟩, rfl, ?_⟩
    cbv
  have hclean : p.CleanlyDeclared .primitives := by
    unfold CleanlyDeclared
    decide +kernel
  have hclean' : other.CleanlyDeclared .primitives := by
    unfold CleanlyDeclared
    decide +kernel
  have hheads : List.Forall₂ Global.SameHead p.globals other.globals :=
    .cons (.function rfl) (.cons (.function rfl) .nil)
  have hnames : ∀ n ∈ f.names, (p.table .primitives).meaning? .global n.text =
      (other.table .primitives).meaning? .global n.text := by decide +kernel
  have hindependent := hp.independent hclean
  have hmoved : moved.globals.Perm p.globals := .swap _ _ _
  refine ⟨hp, hclean, by decide +kernel, hmoved, (hindependent.moved hmoved rfl rfl).2, hother,
    hclean', hheads, hnames, ?_⟩
  exact hindependent.names hother hclean' rfl rfl hnames

end Program

end ScriptFront
