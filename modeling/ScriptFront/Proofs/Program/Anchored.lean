import ScriptFront.Proofs.Program.DeclarationFaults
import ScriptFront.Proofs.Program.Resolved
import ScriptFront.Proofs.Program.Slots
import ScriptFront.Proofs.Program.Stages

/-!
# Where diagnostics stand

Behind the lexer, whatever is reported is reported at a token of the source, and at its end
mark only if the source ends too early. The analyses report at tokens that the program keeps,
and no fault of one kind twice at the same place.
-/
namespace ScriptFront

variable {types : TypeTable} {ts us : List Token} {ds es : List Diagnostic}

/-! ## Declarations -/

/-- The diagnostics stand at some of the tokens, in their order and each at a token of its
own. -/
def Diagnostic.StandAt (ds : List Diagnostic) (ts : List Token) : Prop :=
  (ds.map position).Sublist (ts.map Token.position)

namespace Diagnostic.StandAt

theorem nil : StandAt [] ts := List.nil_sublist _

theorem append (h : StandAt ds ts) (k : StandAt es us) : StandAt (ds ++ es) (ts ++ us) := by
  unfold StandAt
  rw [List.map_append, List.map_append]
  exact List.Sublist.append h k

theorem cons (h : StandAt ds ts) (t : Token) : StandAt ds (t :: ts) := List.Sublist.cons _ h

theorem single (fault : Fault) (t : Token) : StandAt [⟨fault, t.position⟩] (t :: ts) :=
  (List.nil_sublist _).cons_cons _

theorem right (h : StandAt ds us) (ts : List Token) : StandAt ds (ts ++ us) :=
  nil.append h

theorem nodup (h : StandAt ds ts) (hts : (ts.map Token.position).Nodup) :
    (ds.map slot).Nodup := by
  refine List.Nodup.of_map Prod.fst ?_
  rw [List.map_map]
  exact List.Nodup.sublist h hts

theorem exists_token (h : StandAt ds ts) {d : Diagnostic} (hd : d ∈ ds) :
    ∃ t ∈ ts, t.position = d.position :=
  List.mem_map.mp (h.subset (List.mem_map_of_mem hd))

end Diagnostic.StandAt

open Diagnostic (StandAt)

theorem TypeTable.standAt_variableFaults (earlier : List String) (clash : Fault)
    (written : TypeName) (name : Token) :
    StandAt (types.variableFaults earlier clash written name) (written.token :: name :: ts) := by
  unfold variableFaults storageFault?
  split
  · next d hd =>
      split at hd
      · cases hd
        exact .single _ _
      · split_ifs at hd
        cases hd
        exact .single _ _
  · split_ifs
    · exact .cons (.single _ _) _
    · exact .nil

theorem Stmt.standAt_faultsAll {ss : List Stmt} {inLoop : Bool} {earlier : List String}
    (ih : ∀ s ∈ ss, ∀ earlier, StandAt (s.declarationFaults types inLoop earlier) s.tokens) :
    StandAt (declarationFaults.faultsAll types inLoop earlier ss) (tokens.tokensAll ss) := by
  induction ss generalizing earlier with
  | nil => exact .nil
  | cons s ss ihs => exact (ih s (by simp) _).append (ihs fun s hs => ih s (by simp [hs]))

/-- The faults of declarations in a statement stand at tokens of it. -/
theorem Stmt.standAt_declarationFaults (s : Stmt) {inLoop : Bool} {earlier : List String} :
    StandAt (s.declarationFaults types inLoop earlier) s.tokens := by
  induction s using tree_induction generalizing inLoop earlier with
  | empty | assign | returnValue | call => exact .nil
  | breakLoop token =>
      unfold declarationFaults
      split_ifs
      · exact .single _ _
      · exact .nil
  | whileLoop condition body token ih | ifThen condition body token ih => exact (ih.right _).cons _
  | ifThenElse condition thenBranch elseBranch token ihthen ihelse =>
      exact ((ihthen.append ihelse).right _).cons _
  | block statements openBrace ih => exact (standAt_faultsAll fun s hs _ => ih s hs).cons _
  | varDecl type name initializer? symbol? => exact types.standAt_variableFaults _ _ type name

theorem FnDef.standAt_paramFaults {function : String} {earlier : List String} {ps : List Param} :
    StandAt (paramFaults types function earlier ps) (ps.flatMap Param.tokens) := by
  induction ps generalizing earlier with
  | nil => exact .nil
  | cons p ps ih => exact (types.standAt_variableFaults _ _ p.type p.name).append ih

theorem Global.standAt_declarationFaults {g : Global} {earlier : List String} :
    StandAt (g.declarationFaults types earlier) g.tokens := by
  cases g with
  | var v => exact types.standAt_variableFaults _ _ v.type v.name
  | function f =>
      have hresult : StandAt (types.resultFault? f.returnType).toList [f.returnType.token] := by
        unfold TypeTable.resultFault?
        split
        · exact .single _ _
        · exact .nil
      refine hresult.append ?_
      split_ifs
      · exact .single _ _
      · have hbody : StandAt (Stmt.declarationFaults.faultsAll types false [] f.body)
            (Stmt.tokens.tokensAll f.body) :=
          Stmt.standAt_faultsAll fun s _ _ => s.standAt_declarationFaults
        exact ((FnDef.standAt_paramFaults.append (hbody.cons _)).cons _).cons _

/-- The faults of the declarations of a program stand at tokens of their own. -/
theorem Program.standAt_declarationFaults (p : Program) :
    StandAt (p.declarationFaults types) p.tokens := by
  unfold declarationFaults tokens
  generalize ([] : List String) = earlier
  induction p.globals generalizing earlier with
  | nil => exact .nil
  | cons g gs ih => exact Global.standAt_declarationFaults.append (ih _)

/-! ## Sources -/

variable {source : String} {tokens : List Token} {p : Program} {d : Diagnostic}

/-- The first analysis of what cleanup has left of a program reports the faults of its
declarations. -/
theorem Compilation.diagnostics_declared (h : Token.ofSource source = .ok tokens)
    (hp : Program.ofTokens tokens = .ok p) :
    (declared p.cleanup.value).diagnostics = p.cleanup.value.declarationFaults .primitives :=
  Program.declare_reports
    ((Program.apart_braces h hp).sublist p.braces_cleanup_sublist)
    fun _ hg _ => Program.name_ne_returnValueName_of_cleanup h hp hg

namespace Program

/-- The tokens that the program of a source keeps are those of the source in front of the end
mark, or some of them. -/
theorem exists_tokens_sublist (h : Token.ofSource source = .ok tokens)
    (hp : ofTokens tokens = .ok p) : ∃ body place, tokens = body ++ [.endOfInput place] ∧
      (∀ t ∈ body, t.Lexical) ∧ p.tokens.Sublist body := by
  obtain ⟨body, place, rfl, hbody, hspelled⟩ := exists_spelledBy h hp
  exact ⟨body, place, rfl, hbody, hspelled.tokens_sublist⟩

theorem nodup_positions (h : Token.ofSource source = .ok tokens) (hp : ofTokens tokens = .ok p) :
    (p.tokens.map Token.position).Nodup := by
  obtain ⟨body, place, rfl, -, hsublist⟩ := exists_tokens_sublist h hp
  exact List.Nodup.sublist (hsublist.map _) (List.pairwise_map.mpr (Token.apart_of_source h))

end Program

namespace Compilation

/-- What is reported on the program of a source stands at a token that the program keeps, and
each slot is filled at most once. -/
theorem slots_ofProgram (h : Token.ofSource source = .ok tokens)
    (hp : Program.ofTokens tokens = .ok p) :
    (∀ d ∈ (ofProgram tokens p.cleanup.value).diagnostics, ∃ t ∈ p.tokens,
        t.position = d.position) ∧
      ((ofProgram tokens p.cleanup.value).diagnostics.map Diagnostic.slot).Nodup := by
  have hkept := p.tokens_cleanup_sublist
  have hnodup := List.Nodup.sublist (hkept.map _) (Program.nodup_positions h hp)
  suffices hcases : (∀ d ∈ (ofProgram tokens p.cleanup.value).diagnostics,
      ∃ t ∈ p.cleanup.value.tokens, t.position = d.position) ∧
      ((ofProgram tokens p.cleanup.value).diagnostics.map Diagnostic.slot).Nodup by
    refine ⟨fun d hd => ?_, hcases.2⟩
    obtain ⟨t, ht, hposition⟩ := hcases.1 d hd
    exact ⟨t, hkept.subset ht, hposition⟩
  rcases ofProgram_cases tokens p.cleanup.value with ⟨-, heq⟩ | ⟨-, -, heq⟩ | ⟨-, -, a, heq⟩
  · rw [heq, failed, diagnostics_declared h hp]
    have hstand := @Program.standAt_declarationFaults .primitives p.cleanup.value
    exact ⟨fun d hd => hstand.exists_token hd, hstand.nodup hnodup⟩
  · rw [heq, failed]
    have htokens : (declared p.cleanup.value).value.1.tokens = p.cleanup.value.tokens :=
      p.cleanup.value.tokens_declare.post
    have hslots : (checked p.cleanup.value).slots ≤
        Token.slots (declared p.cleanup.value).value.1.tokens Fault.checkingNames :=
      Program.check_slots _
    rw [htokens] at hslots
    refine ⟨fun d hd => ?_, ?_⟩
    · have hslot : d.slot ∈ (checked p.cleanup.value).slots := List.mem_map_of_mem hd
      exact Token.position_of_mem_slots (Multiset.mem_of_le hslots hslot)
    · exact Multiset.nodup_of_le hslots (Token.nodup_slots hnodup (by decide))
  · rw [heq]
    exact ⟨fun _ hd => absurd hd List.not_mem_nil, List.nodup_nil⟩

/-- No fault is reported twice at one place. -/
theorem pairwise_diagnostics (source : String) :
    (ofSource source).diagnostics.Pairwise fun d e =>
      ¬ (d.fault.name = e.fault.name ∧ d.position = e.position) := by
  have hnodup : ((ofSource source).diagnostics.map Diagnostic.slot).Nodup := by
    cases h : Token.ofSource source with
    | error d =>
        rw [ofSource_of_lexing h]
        exact List.nodup_singleton _
    | ok tokens =>
        cases hp : Program.ofTokens tokens with
        | error d =>
            rw [ofSource_of_parsing h hp]
            exact List.nodup_singleton _
        | ok p =>
            rw [ofSource_of_program h hp]
            exact (slots_ofProgram h hp).2
  refine (List.pairwise_map.mp hnodup).imp fun hne hboth => hne ?_
  exact Prod.ext hboth.2 hboth.1

/-- Two faults at the name of an argument, and an operand that has no type, which is reported
once for all signs around it. -/
example : (ofSource ("int g()\x7b return 1; \x7d " ++
      "void f(bool b)\x7b f(g(1)); b = -!-(1 + true); \x7d")).diagnostics.map Diagnostic.slot =
    [(⟨1, 40⟩, "ArgumentCountMismatch"), (⟨1, 40⟩, "ArgumentTypeMatchError"),
      (⟨1, 57⟩, "OperandTypeError")] := by
  decide +kernel

/-! ## Anchors -/

theorem filter_position {t : Token} (htokens : (tokens.map Token.position).Nodup)
    (ht : t ∈ tokens) : tokens.filter (fun u => u.position = t.position) = [t] := by
  induction tokens with
  | nil => cases ht
  | cons u us ih =>
      obtain ⟨hnew, hus⟩ := List.nodup_cons.mp htokens
      rcases List.mem_cons.mp ht with rfl | ht
      · have hothers : us.filter (fun u => u.position = t.position) = [] := by
          refine List.filter_eq_nil_iff.mpr fun u hu heq => hnew ?_
          exact of_decide_eq_true heq ▸ List.mem_map_of_mem hu
        rw [List.filter_cons_of_pos (by simp), hothers]
      · have hne : u.position ≠ t.position := fun heq => hnew (heq ▸ List.mem_map_of_mem ht)
        rw [List.filter_cons_of_neg (by simpa using hne), ih hus ht]

/-- What cannot be parsed is reported at a token, as what it is. -/
theorem exists_faultAt {body : List Token} {last : Token} (hlast : last.kind = .endOfInput)
    (hp : Program.ofTokens (body ++ [last]) = .error d) :
    ∃ k t, (body ++ [last])[k]? = some t ∧ t.position = d.position ∧
      FaultAt (body ++ [last]) k d.fault := by
  have hs := ParserState.ready_ofTokens body "program" hlast
  obtain ⟨-, rfl⟩ := Parser.program_reports.result_eq_error hp
  have hrun := Parser.program_recognizes _ hs
  rcases hr : Parser.program (.ofTokens (body ++ [last]) "program") with ⟨o, s⟩
  rw [hr] at hrun
  have hready := hrun.follows.ready hs
  have htokens : s.tokens = body ++ [last] :=
    hrun.follows.tokens.trans (TokenStream.toList_ofList body last)
  rw [← htokens]
  exact ⟨_, _, s.cursor.stream.getElem?_toList hready.furthest_inside, rfl, hready.faultAt⟩

theorem kind_iff_of_faultAt {k : ℕ} {fault : Fault} {t : Token} (h : FaultAt tokens k fault)
    (ht : tokens[k]? = some t) :
    t.kind = .endOfInput ↔ ∃ production, fault = .unexpectedEndOfFile production := by
  cases h with
  | ending hread hkind =>
      obtain rfl := Option.some.inj (hread.symm.trans ht)
      exact iff_of_true hkind ⟨_, rfl⟩
  | first hread hkind | behind _ hread hkind =>
      obtain rfl := Option.some.inj (hread.symm.trans ht)
      exact iff_of_false hkind nofun

/-- How what is said about the tokens of a source belongs to single tokens. -/
structure Anchored (source : String) : Prop where
  /-- Each diagnostic stands at the place of exactly one token, which is the end mark if and
  only if the source ends too early. -/
  diagnostics : ∀ d ∈ (ofSource source).diagnostics, ∃ t,
    (ofSource source).tokens.filter (fun u => u.position = d.position) = [t] ∧
      (t.kind = .endOfInput ↔ ∃ production, d.fault = .unexpectedEndOfFile production)
  /-- There is one end mark, behind all other tokens. -/
  ends : ∃ body place, (ofSource source).tokens = body ++ [.endOfInput place] ∧
    ∀ t ∈ body, t.kind ≠ .endOfInput
  /-- The parser makes up no token, and keeps no end mark. -/
  tree : ∀ p, Program.ofTokens (ofSource source).tokens = .ok p →
    ∀ t ∈ p.tokens, t ∈ (ofSource source).tokens ∧ t.kind ≠ .endOfInput

theorem stage?_ne_parsing (h : Token.ofSource source = .ok tokens)
    (hp : Program.ofTokens tokens = .ok p)
    (hd : d ∈ (ofProgram tokens p.cleanup.value).diagnostics) :
    d.fault.stage? ≠ some .parsing := by
  rcases ofProgram_cases tokens p.cleanup.value with ⟨-, heq⟩ | ⟨-, -, heq⟩ | ⟨-, -, a, heq⟩
  · rw [heq] at hd
    rw [(fits_of_declared h hp d hd).stage]
    nofun
  · rw [heq] at hd
    rw [(fits_of_checked h hp d hd).stage]
    nofun
  · rw [heq] at hd
    cases hd

/-- What is reported on a source that has tokens stands at one of them. -/
theorem exists_anchor (h : Token.ofSource source = .ok tokens)
    (hd : d ∈ (ofSource source).diagnostics) : ∃ t ∈ tokens, t.position = d.position ∧
      (t.kind = .endOfInput ↔ ∃ production, d.fault = .unexpectedEndOfFile production) := by
  cases hp : Program.ofTokens tokens with
  | error e =>
      obtain ⟨body, place, rfl, -⟩ := Token.ofSource_ok h
      obtain ⟨k, t, ht, hposition, hfault⟩ := exists_faultAt rfl hp
      rw [ofSource_of_parsing h hp] at hd
      obtain rfl := List.mem_singleton.mp hd
      exact ⟨t, List.mem_of_getElem? ht, hposition, kind_iff_of_faultAt hfault ht⟩
  | ok p =>
      obtain ⟨body, place, rfl, hbody, hsublist⟩ := Program.exists_tokens_sublist h hp
      rw [ofSource_of_program h hp] at hd
      obtain ⟨t, ht, hposition⟩ := (slots_ofProgram h hp).1 d hd
      have hmem := hsublist.subset ht
      refine ⟨t, List.mem_append_left _ hmem, hposition, iff_of_false (hbody t hmem).inside ?_⟩
      rintro ⟨production, hfault⟩
      exact stage?_ne_parsing h hp hd (hfault ▸ rfl)

/-- Whatever is said about the tokens of a source belongs to one of them. -/
theorem anchored (h : Token.ofSource source = .ok tokens) : Anchored source where
  diagnostics d hd := by
    rw [(ofSource_of_tokens h).1]
    obtain ⟨t, ht, hposition, hend⟩ := exists_anchor h hd
    have hlaid : Laid [] source.toList tokens := Token.laid_of_scan rfl h
    have hnodup : (tokens.map Token.position).Nodup := by
      refine List.pairwise_map.mpr (hlaid.increasing.imp fun hlt heq => ?_)
      rw [heq] at hlt
      exact Position.lt_irrefl _ hlt
    exact ⟨t, hposition ▸ filter_position hnodup ht, hend⟩
  ends := by
    rw [(ofSource_of_tokens h).1]
    obtain ⟨body, place, hbody, hlexical⟩ := Token.ofSource_ok h
    exact ⟨body, place, hbody, fun t ht => (hlexical t ht).inside⟩
  tree p hp t ht := by
    rw [(ofSource_of_tokens h).1] at hp ⊢
    obtain ⟨body, place, rfl, hbody, hsublist⟩ := Program.exists_tokens_sublist h hp
    have hmem := hsublist.subset ht
    exact ⟨List.mem_append_left _ hmem, (hbody t hmem).inside⟩

/-- A source that ends in the body of a function. -/
theorem anchored_of_end :
    let source := "void f()\x7b int x = 1; "
    ∃ tokens, Token.ofSource source = .ok tokens ∧ Anchored source ∧
      (ofSource source).diagnostics = [⟨.unexpectedEndOfFile "while statement", ⟨1, 22⟩⟩] := by
  intro source
  have hok : (Token.ofSource source).isOk := by decide +kernel
  have hdiagnostics : (ofSource source).diagnostics =
      [⟨.unexpectedEndOfFile "while statement", ⟨1, 22⟩⟩] := by decide +kernel
  cases h : Token.ofSource source with
  | error d =>
      rw [h] at hok
      cases hok
  | ok tokens => exact ⟨tokens, rfl, anchored h, hdiagnostics⟩

end Compilation

end ScriptFront
