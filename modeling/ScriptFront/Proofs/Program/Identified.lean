import ScriptFront.Proofs.Program.DeclaredBefore
import ScriptFront.Proofs.SymbolTable.Qualified
import ScriptFront.Proofs.Token.Origins
import ScriptFront.Proofs.Tree.Names

/-!
# Qualified names of a program

The names of a program are words, and the names of blocks are made of numbers and a colon.
So in the symbol table of a program that compiles, no name has a dot or a space in it, and
its scopes and symbols are told by their qualified names.
-/
namespace ScriptFront

variable {t : SymbolTable} {next : ℕ} {name : Token}

/-! ## Texts of names -/

namespace Text

theorem unbroken_of_isWordPart {s : String} (h : ∀ c ∈ s.toList, Pattern.isWordPart c) :
    Unbroken s :=
  ⟨fun hdot => absurd (h _ hdot) (by decide), fun hspace => absurd (h _ hspace) (by decide)⟩

theorem unbroken_toString (n : ℕ) : Unbroken (toString n) := by
  have hdigits : ∀ c ∈ (toString n).toList, c.isDigit := by
    rw [Numeral.toList_toString]
    exact (Numeral.isDigits_toDigits n).2
  exact ⟨fun hdot => absurd (hdigits _ hdot) (by decide),
    fun hspace => absurd (hdigits _ hspace) (by decide)⟩

theorem unbroken_blockScopeName (openBrace : Token) : Unbroken (Stmt.blockScopeName openBrace) :=
  .append (by decide)
    (.append (.append (unbroken_toString _) (by decide)) (unbroken_toString _))

end Text

theorem TypeTable.unbroken_primitives : TypeTable.primitives.Unbroken := by
  intro type
  have hnames : ∀ info ∈ TypeTable.primitives.types, Text.Unbroken info.name := by decide
  unfold nameOf info?
  cases h : primitives.types[type.index]? with
  | none => exact (by decide : Text.Unbroken "")
  | some info => exact hnames info (List.mem_of_getElem? h)

/-! ## Names in the symbol table -/

theorem Stmt.Declares.mem_names {s : Stmt} (h : s.Declares name) : name ∈ s.names := by
  induction h with
  | varDecl => simp [names]
  | whileLoop _ ih | ifThen _ ih => exact List.mem_append_right _ ih
  | thenBranch _ ih => exact List.mem_append_right _ (List.mem_append_left _ ih)
  | elseBranch _ ih => exact List.mem_append_right _ (List.mem_append_right _ ih)
  | block hs _ ih => exact Stmt.mem_namesAll.mpr ⟨_, hs, ih⟩

theorem Global.unbroken_of_mem_opened {g : Global} (hnames : ∀ n ∈ g.names, Text.Unbroken n.text)
    {o : String × ScopeId} (ho : o ∈ g.opened next) : Text.Unbroken o.1 := by
  cases g with
  | var v => cases ho
  | function f =>
      rcases List.mem_cons.mp ho with rfl | ho
      · exact hnames f.name (by simp [names, FnDef.names])
      · have hblock : o ∈ (Stmt.block f.body f.openBrace).opened ⟨next⟩ (next + 1) := ho
        obtain ⟨b, -, hname⟩ := Stmt.exists_of_mem_opened hblock
        exact hname ▸ Text.unbroken_blockScopeName b

theorem Global.unbroken_of_mem_entries {g : Global} (hnames : ∀ n ∈ g.names, Text.Unbroken n.text)
    {e : Entry} (he : e ∈ g.entries next) : e.symbol.Unbroken := by
  cases g with
  | var v =>
      obtain rfl := List.mem_singleton.mp he
      exact ⟨hnames v.name (by simp [names]), nofun⟩
  | function f =>
      have hparam : ∀ p ∈ f.params, Text.Unbroken p.name.text := by
        intro p hp
        refine hnames p.name ?_
        simp only [names, FnDef.names, List.mem_cons, List.mem_append, List.mem_flatMap]
        exact .inr (.inr (.inl ⟨p, hp, by simp [Param.names]⟩))
      rcases List.mem_append.mp he with he | he
      · rcases List.mem_cons.mp he with rfl | he
        · refine ⟨hnames f.name (by simp [names, FnDef.names]), fun _ q hq => ?_⟩
          obtain ⟨p, hp, rfl⟩ := List.mem_map.mp hq
          exact hparam p hp
        · rcases List.mem_cons.mp he with rfl | he
          · exact ⟨(by decide : Text.Unbroken Symbol.returnValueName), nofun⟩
          · obtain ⟨p, hp, rfl⟩ := List.mem_map.mp he
            exact ⟨hparam p hp, nofun⟩
      · obtain ⟨s, hs, henters⟩ := Stmt.exists_enters_of_mem (fun s _ _ => Stmt.enters_of_mem) he
        refine ⟨?_, fun hk => ?_⟩
        · rw [henters.named]
          have hmem := Stmt.mem_namesAll.mpr ⟨s, hs, henters.declared.mem_names⟩
          exact hnames _ (by simp [names, FnDef.names, hmem])
        · cases hk.symm.trans henters.kind

theorem Program.MirroredBy.unbroken {p : Program} (h : p.MirroredBy t)
    (hnames : ∀ n ∈ p.names, Text.Unbroken n.text) : t.Unbroken where
  scope hname := by
    rcases h.exists_opened hname with rfl | ⟨g, hg, next, o, ho, rfl⟩
    · decide
    · exact Global.unbroken_of_mem_opened
        (fun n hn => hnames n (List.mem_flatMap.mpr ⟨g, hg, hn⟩)) ho
  symbol hs := by
    obtain ⟨g, hg, next, e, he, rfl⟩ := h.exists_entry hs
    exact Global.unbroken_of_mem_entries
      (fun n hn => hnames n (List.mem_flatMap.mpr ⟨g, hg, hn⟩)) he

/-- The names in the program of a source are words. -/
theorem Program.unbroken_names {source : String} {tokens : List Token} {p : Program}
    (hsource : Token.ofSource source = .ok tokens) (hp : Program.ofTokens tokens = .ok p) :
    ∀ n ∈ p.names, Text.Unbroken n.text := by
  intro n hn
  obtain ⟨body, place, rfl, -, hspelled⟩ := exists_spelledBy hsource hp
  obtain ⟨hmem, hkind⟩ := hspelled.isNameIn hn
  exact Text.unbroken_of_isWordPart
    (Token.isWordPart_of_scan hsource n (List.mem_append_left _ hmem) hkind)

namespace Compilation

theorem unbroken_symbols {source : String} {a : Artifact}
    (h : (ofSource source).artifact? = some a) :
    a.symbols.Nested ∧ a.symbols.Unbroken ∧ a.types.Unbroken := by
  obtain ⟨tokens, p, p', hsource, hp, hdeclare, -, htypes⟩ := exists_of_artifact? h
  have hmirrors := (Program.declare_cleanup_mirrors hsource hp).of_clean hdeclare
  have hdeclared : (p.cleanup.value.declare .primitives .empty).value.1.names =
      p.cleanup.value.names := p.cleanup.value.names_declare.post
  have hnames := Program.unbroken_names hsource hp
  rw [← p.names_cleanup, ← hdeclared, hdeclare] at hnames
  exact ⟨hmirrors.nested, hmirrors.unbroken hnames, htypes ▸ TypeTable.unbroken_primitives⟩

/-- In the symbol table of an artifact no two scopes have the same qualified name, and the
listing has one line for each symbol, no two of which are the same. -/
theorem artifact_identified {source : String} {a : Artifact}
    (h : (ofSource source).artifact? = some a) :
    (∀ scope scope', a.symbols.Known scope → a.symbols.Known scope' →
      a.symbols.qualifiedName scope = a.symbols.qualifiedName scope' → scope = scope') ∧
    (a.symbols.listing a.types).Nodup ∧
    (a.symbols.listing a.types).length = a.symbols.symbols.size := by
  obtain ⟨hnested, hsymbols, htypes⟩ := unbroken_symbols h
  refine ⟨fun scope scope' hs hs' => ?_, ?_, ?_⟩
  · exact hnested.qualifiedName_inj hsymbols hs hs'
  · exact hnested.nodup_listing hsymbols htypes
  · exact hnested.length_listing a.types

/-- A function whose parameter has the name of the function, and a block in it that declares
this name again. -/
theorem artifact_identified_of_shadowing :
    let source := "int a; void f(int f)\x7b\x7bint f; int a;\x7d\x7d"
    ∃ a, (ofSource source).artifact? = some a ∧
      (∀ scope scope', a.symbols.Known scope → a.symbols.Known scope' →
        a.symbols.qualifiedName scope = a.symbols.qualifiedName scope' → scope = scope') ∧
      (a.symbols.listing a.types).Nodup ∧
      (a.symbols.listing a.types).length = a.symbols.symbols.size := by
  intro source
  have h : (ofSource source).artifact?.isSome := by decide +kernel
  obtain ⟨a, ha⟩ := Option.isSome_iff_exists.mp h
  exact ⟨a, ha, artifact_identified ha⟩

end Compilation

end ScriptFront
