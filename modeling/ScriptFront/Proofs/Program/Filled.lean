import ScriptFront.Proofs.Program.Mirror

/-!
# What any run of the first analysis adds

A run declares names in one scope and opens the scopes of blocks, whether or not it reports
anything. All else in the table stays as it was: names in other scopes are free or taken as
before, and blocks that begin at other places are still without a scope.
-/
namespace ScriptFront

namespace SymbolTable

variable {t u v : SymbolTable} {scope inner : ScopeId} {symbol : Symbol} {id : SymbolId}
  {name : String} {names names' : List String} {braces braces' : List Token} {b b' : Token}

/-- A name is declared directly in a scope. -/
def Takes (t : SymbolTable) (scope : ScopeId) (name : String) : Prop :=
  (t.local? scope name).isSome

/-- The table `u` is `t` with names declared in the scope, and with scopes for the blocks that
begin with the braces. -/
structure Filled (t : SymbolTable) (scope : ScopeId) (names : List String) (braces : List Token)
    (u : SymbolTable) : Prop where
  evolves : t.Evolves u
  takes_iff (n : String) : u.Takes scope n ↔ t.Takes scope n ∨ n ∈ names
  others {s : ScopeId} (n : String) : t.Known s → s ≠ scope → (u.Takes s n ↔ t.Takes s n)
  free {b : Token} : (∀ b' ∈ braces, b'.position ≠ b.position) → t.Free b → u.Free b

theorem Opens.free_of_ne (h : t.Opens scope (Stmt.blockScopeName b) inner u)
    (hne : b.position ≠ b'.position) (hfree : t.Free b') : u.Free b' := by
  intro s hs
  rw [h.sub_eq, if_neg]
  · exact hfree s hs
  · rintro ⟨-, hname⟩
    exact hne (Stmt.blockScopeName_inj.mp hname).symm

theorem Opens.free_of_global (h : t.Opens .global name inner u) (hfree : t.Free b) :
    u.Free b := by
  intro s hs
  rw [h.sub_eq, if_neg fun heq => hs heq.1]
  exact hfree s hs

theorem Opens.not_takes (h : t.Opens scope name inner u) (n : String) : ¬ u.Takes inner n := by
  unfold Takes
  rw [h.local_eq, local?_of_not_known h.new]
  simp

namespace Filled

theorem of_takes (ht : t.Nested) (h : ∀ n ∈ names, t.Takes scope n) :
    t.Filled scope names braces t where
  evolves := ht.refl
  takes_iff n := (or_iff_left_of_imp (h n)).symm
  others _ _ _ := Iff.rfl
  free _ hfree := hfree

theorem refl (ht : t.Nested) : t.Filled scope [] [] t := of_takes ht nofun

theorem trans (h : t.Filled scope names braces u) (k : u.Filled scope names' braces' v) :
    t.Filled scope (names ++ names') (braces ++ braces') v where
  evolves := h.evolves.trans k.evolves
  takes_iff n := by rw [k.takes_iff, h.takes_iff, List.mem_append, or_assoc]
  others n hs hne := (k.others n (h.evolves.known hs) hne).trans (h.others n hs hne)
  free hne hfree := by
    rw [List.forall_mem_append] at hne
    exact k.free hne.2 (h.free hne.1 hfree)

theorem of_adds (ht : t.Nested) (h : t.Adds scope symbol id u) :
    t.Filled scope [symbol.name] [] u where
  evolves := h.evolve ht
  takes_iff n := by
    unfold Takes
    rw [h.local_eq]
    split_ifs with hn
    · simp [hn.2]
    · simp_all
  others {s} n _ hne := by
    unfold Takes
    rw [h.local_eq, if_neg fun heq => hne heq.1]
  free _ hfree s hs := (h.sub_eq _ _).trans (hfree s hs)

theorem inside (h : t.Opens scope name inner u) (hevolves : t.Evolves u)
    (hopened : ∀ {b'}, (∀ b ∈ braces, b.position ≠ b'.position) → t.Free b' → u.Free b')
    (k : u.Filled inner names braces' v) : t.Filled scope [] (braces ++ braces') v where
  evolves := hevolves.trans k.evolves
  takes_iff n := by
    rw [k.others n (hevolves.known h.known) (h.known.ne h.fresh)]
    unfold Takes
    simp [h.local_eq]
  others {s} n hs _ := by
    rw [k.others n (hevolves.known hs) (hs.ne h.fresh)]
    unfold Takes
    rw [h.local_eq]
  free hne hfree := by
    rw [List.forall_mem_append] at hne
    exact k.free hne.2 (hopened hne.1 hfree)

theorem block (ht : t.Nested) (hroot : scope ≠ .global)
    (h : t.Opens scope (Stmt.blockScopeName b) inner u) (k : u.Filled inner names braces v) :
    t.Filled scope [] (b :: braces) v := by
  have hopened : ∀ {b'}, (∀ c ∈ [b], c.position ≠ b'.position) → t.Free b' → u.Free b' :=
    fun hne => h.free_of_ne (hne b (List.mem_singleton.mpr rfl))
  exact inside h (h.evolve ht fun heq => absurd heq hroot) hopened k

theorem function (ht : t.Nested) (hname : t.Takes .global name)
    (h : t.Opens .global name inner u) (k : u.Filled inner names braces v) :
    t.Filled .global [] braces v := by
  have hopened : ∀ {b'}, (∀ c ∈ ([] : List Token), c.position ≠ b'.position) → t.Free b' →
      u.Free b' := fun _ => h.free_of_global
  exact inside h (h.evolve ht fun _ => Option.isSome_iff_exists.mp hname) hopened k

theorem setSignature (h : t.Filled scope names braces u) (id : SymbolId) (type? : Option TypeId)
    (params : List (String × Option TypeId)) :
    t.Filled scope names braces (u.setSignature id type? params) where
  evolves := h.evolves.trans h.evolves.nested.evolve_setSignature
  takes_iff := h.takes_iff
  others := h.others
  free := h.free

theorem known (h : t.Filled scope names braces u) (hs : t.Known scope) : u.Known scope :=
  h.evolves.known hs

end Filled

end SymbolTable

end ScriptFront
