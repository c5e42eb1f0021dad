import ScriptFront.Proofs.SymbolTable.Walk

/-!
# Qualified names

In a listing the names of scopes stand with dots between them, and the parts of a
signature with spaces. If no name has a dot or a space in it, the names can be told from
the text again. Scopes of the same qualified name are so found by the same names from the
global scope on, and are the same; and lines that are the same belong to one symbol.
-/
namespace ScriptFront

/-- The text has neither a dot nor a space. -/
structure Text.Unbroken (s : String) : Prop where
  dot : '.' ∉ s.toList
  space : ' ' ∉ s.toList

namespace Text

variable {s s' : String}

instance (s : String) : Decidable (Unbroken s) :=
  decidable_of_iff ('.' ∉ s.toList ∧ ' ' ∉ s.toList)
    ⟨fun h => ⟨h.1, h.2⟩, fun h => ⟨h.dot, h.space⟩⟩

theorem Unbroken.append (h : Unbroken s) (h' : Unbroken s') : Unbroken (s ++ s') where
  dot := by
    rw [String.toList_append, List.mem_append, not_or]
    exact ⟨h.dot, h'.dot⟩
  space := by
    rw [String.toList_append, List.mem_append, not_or]
    exact ⟨h.space, h'.space⟩

/-- Joined by dots, texts without dots can be told from each other. -/
theorem intercalate_dot_inj {l l' : List String} (hl : ∀ s ∈ l, '.' ∉ s.toList)
    (hl' : ∀ s ∈ l', '.' ∉ s.toList) (hne : l ≠ []) (hne' : l' ≠ [])
    (h : ".".intercalate l = ".".intercalate l') : l = l' := by
  have hsplit : ∀ {l : List String}, (∀ s ∈ l, '.' ∉ s.toList) → l ≠ [] →
      (".".intercalate l).toList.splitOn '.' = l.map String.toList := by
    intro l hl hne
    rw [String.toList_intercalate]
    apply List.splitOn_intercalate
    · simpa using hl
    · simpa using hne
  apply List.map_injective_iff.mpr fun _ _ => String.toList_inj.mp
  rw [← hsplit hl hne, ← hsplit hl' hne', h]

end Text

/-- No name of a type has a dot or a space. -/
def TypeTable.Unbroken (types : TypeTable) : Prop := ∀ type, Text.Unbroken (types.nameOf type)

/-- No name that the listing shows of the symbol has a dot or a space. -/
structure Symbol.Unbroken (s : Symbol) : Prop where
  name : Text.Unbroken s.name
  params : s.kind = .function → ∀ p ∈ s.params, Text.Unbroken p.1

namespace SymbolTable

variable {t : SymbolTable} {types : TypeTable} {scope scope' : ScopeId} {symbol symbol' : Symbol}
  {id id' : SymbolId} {name : String}

/-- No name of a scope or of a symbol has a dot or a space. -/
structure Unbroken (t : SymbolTable) : Prop where
  scope {scope : ScopeId} {name : String} : t.name? scope = some name → Text.Unbroken name
  symbol {id : SymbolId} {symbol : Symbol} : t.symbol? id = some symbol → symbol.Unbroken

/-! ## Signatures -/

theorem unbroken_typeText (h : types.Unbroken) (type? : Option TypeId) :
    Text.Unbroken (typeText types type?) := by
  cases type? with
  | none => exact (by decide : Text.Unbroken "?")
  | some type => exact h type

/-- The two words that a signature begins with: the type and the name of a function, and
otherwise the name and a colon. -/
def leadingWords (types : TypeTable) (s : Symbol) : String × String :=
  if s.kind = .function then (typeText types s.type?, s.name ++ "(") else (s.name, ":")

theorem exists_signature_eq (types : TypeTable) (s : Symbol) : ∃ rest, signature types s =
    (leadingWords types s).1 ++ " " ++ ((leadingWords types s).2 ++ " " ++ rest) := by
  unfold leadingWords
  split_ifs with hk
  · refine ⟨paramsText types s.params ++ ")", ?_⟩
    have hbracket : "( " = "(" ++ " " := rfl
    simp only [signature, hk, hbracket, String.append_assoc]
  · have hcolon : " : " = " " ++ (":" ++ " ") := rfl
    have hclass : " : class" = " " ++ (":" ++ (" " ++ "class")) := rfl
    unfold signature
    split
    · exact absurd ‹_› hk
    · exact ⟨"class", by simp only [hclass, String.append_assoc]⟩
    · exact ⟨typeText types s.type?, by simp only [hcolon, String.append_assoc]⟩

theorem unbroken_leadingWords (htypes : types.Unbroken) (hs : Text.Unbroken symbol.name) :
    Text.Unbroken (leadingWords types symbol).1 ∧
      Text.Unbroken (leadingWords types symbol).2 := by
  unfold leadingWords
  split_ifs
  · exact ⟨unbroken_typeText htypes _, hs.append (by decide)⟩
  · exact ⟨hs, (by decide : Text.Unbroken ":")⟩

/-- The first two words tell the name, because the second one is no colon if it ends at a
bracket. -/
theorem name_eq_of_leadingWords (h : leadingWords types symbol = leadingWords types symbol') :
    symbol.name = symbol'.name := by
  have hne : ∀ s : String, s ++ "(" ≠ ":" := by
    intro s hs
    have hlast := congrArg (fun s : String => s.toList.getLast?) hs
    simp at hlast
  unfold leadingWords at h
  split_ifs at h
  · exact String.append_left_inj _ |>.mp (Prod.mk.inj h).2
  · exact absurd (Prod.mk.inj h).2 (hne _)
  · exact absurd (Prod.mk.inj h).2.symm (hne _)
  · exact (Prod.mk.inj h).1

theorem name_eq_of_signature (htypes : types.Unbroken) (hs : Text.Unbroken symbol.name)
    (hs' : Text.Unbroken symbol'.name) (h : signature types symbol = signature types symbol') :
    symbol.name = symbol'.name := by
  have hwords : ∀ {s : Symbol}, Text.Unbroken s.name →
      ∃ rest, (signature types s).toList.splitOn ' ' =
        (leadingWords types s).1.toList :: (leadingWords types s).2.toList :: rest := by
    intro s hs
    obtain ⟨rest, heq⟩ := exists_signature_eq types s
    obtain ⟨hfirst, hsecond⟩ := unbroken_leadingWords htypes hs
    refine ⟨rest.toList.splitOn ' ', ?_⟩
    have hspace : " ".toList = [' '] := rfl
    simp only [heq, String.toList_append, hspace, List.append_assoc, List.singleton_append]
    rw [List.splitOn_append_cons_self_of_not_mem hfirst.space,
      List.splitOn_append_cons_self_of_not_mem hsecond.space]
  obtain ⟨rest, heq⟩ := hwords hs
  obtain ⟨rest', heq'⟩ := hwords hs'
  rw [h, heq'] at heq
  obtain ⟨hfirst, hrest⟩ := List.cons.inj heq
  have hsecond := (List.cons.inj hrest).1
  exact name_eq_of_leadingWords
    (Prod.ext (String.toList_inj.mp hfirst.symm) (String.toList_inj.mp hsecond.symm))

theorem dot_notMem_signature (htypes : types.Unbroken) (hs : symbol.Unbroken) :
    '.' ∉ (signature types symbol).toList := by
  have htype := (unbroken_typeText htypes symbol.type?).dot
  have hname := hs.name.dot
  unfold signature
  split
  · rename_i hk
    have hparams : '.' ∉ (paramsText types symbol.params).toList := by
      rw [paramsText, String.toList_join, List.mem_flatMap]
      rintro ⟨_, htext, hmem⟩
      obtain ⟨p, hp, rfl⟩ := List.mem_map.mp htext
      have hparam := (hs.params hk p hp).dot
      have hptype := (unbroken_typeText htypes p.2).dot
      simp [hparam, hptype] at hmem
    simp [htype, hname, hparams]
  · simp [hname]
  · simp [hname, htype]

/-! ## Paths -/

theorem Known.exists_name (h : t.Known scope) : ∃ name, t.name? scope = some name := by
  obtain ⟨s, hs⟩ := h.exists_scope
  exact ⟨s.name, by rw [name?, hs, Option.map_some]⟩

namespace Rooted

variable (h : t.Rooted)
include h

theorem path_ne_nil (hs : t.Known scope) : t.path scope ≠ [] := by
  obtain ⟨name, hname⟩ := hs.exists_name
  rw [h.path_eq, hname]
  simp

theorem eq_global_of_parent? (hs : t.Known scope) (hp : t.parent? scope = none) :
    scope = .global := by
  by_contra hne
  obtain ⟨outer, houter⟩ := h.housed hs hne
  cases hp.symm.trans houter

/-- A scope is found by the names on the way to it. -/
theorem path_inj (hs : t.Known scope) (hs' : t.Known scope') (heq : t.path scope = t.path scope') :
    scope = scope' := by
  induction scope using h.outwards generalizing scope' with
  | step scope ih =>
      obtain ⟨name, hname⟩ := hs.exists_name
      obtain ⟨name', hname'⟩ := hs'.exists_name
      rw [h.path_eq, h.path_eq scope', hname, hname'] at heq
      obtain ⟨hway, hlast⟩ := List.append_inj' heq rfl
      obtain rfl := List.singleton_inj.mp hlast
      cases hp : t.parent? scope with
      | none =>
          cases hp' : t.parent? scope' with
          | none => rw [h.eq_global_of_parent? hs hp, h.eq_global_of_parent? hs' hp']
          | some outer' =>
              rw [hp, hp'] at hway
              exact absurd hway.symm (h.path_ne_nil (h.known_outer hp'))
      | some outer =>
          cases hp' : t.parent? scope' with
          | none =>
              rw [hp, hp'] at hway
              exact absurd hway (h.path_ne_nil (h.known_outer hp))
          | some outer' =>
              rw [hp, hp'] at hway
              obtain rfl := ih outer hp (h.known_outer hp) (h.known_outer hp') hway
              exact Option.some.inj ((h.subScope?_of_parent? hp hname).symm.trans
                (h.subScope?_of_parent? hp' hname'))

theorem dot_notMem_path (ht : t.Unbroken) (scope : ScopeId) :
    ∀ s ∈ t.path scope, '.' ∉ s.toList := by
  induction scope using h.outwards with
  | step scope ih =>
      intro s hs
      rw [h.path_eq, List.mem_append, Option.mem_toList] at hs
      rcases hs with hs | hname
      · cases hp : t.parent? scope with
        | none => simp [hp] at hs
        | some outer =>
            rw [hp] at hs
            exact ih outer hp s hs
      · exact (ht.scope hname).dot

/-- Different scopes have different qualified names. -/
theorem qualifiedName_inj (ht : t.Unbroken) (hs : t.Known scope) (hs' : t.Known scope')
    (heq : t.qualifiedName scope = t.qualifiedName scope') : scope = scope' :=
  h.path_inj hs hs' (Text.intercalate_dot_inj (h.dot_notMem_path ht scope)
    (h.dot_notMem_path ht scope') (h.path_ne_nil hs) (h.path_ne_nil hs') heq)

/-- The signature is one more part behind the names of the scopes. -/
theorem qualifiedSignature_eq (hs : t.Known symbol.scope) : t.qualifiedSignature types symbol =
    ".".intercalate (t.path symbol.scope ++ [signature types symbol]) := by
  rw [String.intercalate_append_of_ne_nil (h.path_ne_nil hs) (List.cons_ne_nil _ _),
    String.intercalate_singleton]
  rfl

theorem dot_notMem_parts (ht : t.Unbroken) (htypes : types.Unbroken) (hs : symbol.Unbroken) :
    ∀ s ∈ t.path symbol.scope ++ [signature types symbol], '.' ∉ s.toList := by
  intro s hmem
  rcases List.mem_append.mp hmem with hpath | hsignature
  · exact h.dot_notMem_path ht symbol.scope s hpath
  · rw [List.mem_singleton.mp hsignature]
    exact dot_notMem_signature htypes hs

/-- A symbol is told by its qualified signature. -/
theorem qualifiedSignature_inj (ht : t.Unbroken) (htypes : types.Unbroken)
    (hs : t.symbol? id = some symbol) (hs' : t.symbol? id' = some symbol')
    (heq : t.qualifiedSignature types symbol = t.qualifiedSignature types symbol') : id = id' := by
  have hl := h.listed hs
  have hl' := h.listed hs'
  have hunbroken := ht.symbol hs
  have hunbroken' := ht.symbol hs'
  rw [h.qualifiedSignature_eq (known_of_local? hl),
    h.qualifiedSignature_eq (known_of_local? hl')] at heq
  have hparts := Text.intercalate_dot_inj (h.dot_notMem_parts ht htypes hunbroken)
    (h.dot_notMem_parts ht htypes hunbroken') (by simp) (by simp) heq
  obtain ⟨hpath, hsignature⟩ := List.append_inj' hparts rfl
  have hscope := h.path_inj (known_of_local? hl) (known_of_local? hl') hpath
  have hname := name_eq_of_signature htypes hunbroken.name hunbroken'.name
    (List.singleton_inj.mp hsignature)
  rw [hscope, hname] at hl
  exact Option.some.inj (hl.symm.trans hl')

/-- No line of the listing is there twice. -/
theorem nodup_listing (ht : t.Unbroken) (htypes : types.Unbroken) : (t.listing types).Nodup := by
  apply h.nodup_symbolsWithin.filterMap
  intro id id' line hline hline'
  obtain ⟨symbol, hs, rfl⟩ := Option.map_eq_some_iff.mp hline
  obtain ⟨symbol', hs', heq⟩ := Option.map_eq_some_iff.mp hline'
  exact h.qualifiedSignature_inj ht htypes hs hs' heq.symm

theorem length_listing (types : TypeTable) : (t.listing types).length = t.symbols.size := by
  rw [(h.listing_perm types).length_eq, List.length_map, Array.length_toList]

end Rooted

end SymbolTable

end ScriptFront
