import ScriptFront.Proofs.Program.Distinct

/-!
# What bodies add

The body of a function adds scopes and symbols to a table, and changes no symbol that is
there. Its variables carry symbols of the table. What the name of the function means is
decided by the head alone.
-/
namespace ScriptFront

variable {types : TypeTable} {t u v : SymbolTable} {scope inner : ScopeId} {loops : ℕ}

namespace SymbolTable

variable {symbol : Symbol} {id : SymbolId} {name : String}

/-- The symbols of `t` are symbols of `u`, with the same signatures. -/
structure Retains (t u : SymbolTable) : Prop where
  size : t.symbols.size ≤ u.symbols.size
  symbol_eq {id : SymbolId} : id.index < t.symbols.size → u.symbol? id = t.symbol? id

namespace Retains

theorem refl (t : SymbolTable) : t.Retains t := ⟨Nat.le_refl _, fun _ => rfl⟩

theorem trans (h : t.Retains u) (k : u.Retains v) : t.Retains v where
  size := Nat.le_trans h.size k.size
  symbol_eq hid := (k.symbol_eq (Nat.lt_of_lt_of_le hid h.size)).trans (h.symbol_eq hid)

theorem meaning?_eq (h : t.Retains u) (ht : t.Nested) (hu : t.Evolves u)
    (hl : t.local? scope name = some id) : u.meaning? scope name = t.meaning? scope name := by
  obtain ⟨symbol, hsymbol, -⟩ := ht.entry hl
  rw [meaning?_of_local? hl hsymbol]
  apply meaning?_of_local? (hu.declared hl)
  rw [h.symbol_eq (symbol_lt_of_symbol? hsymbol), hsymbol]

end Retains

theorem Adds.retains (h : t.Adds scope symbol id u) : t.Retains u where
  size := by
    rw [h.symbols_eq, Array.size_push]
    exact Nat.le_succ _
  symbol_eq {i} hi := by
    rw [h.symbol_eq, if_neg]
    rintro rfl
    exact Nat.ne_of_lt hi h.fresh

theorem Opens.retains (h : t.Opens scope name inner u) : t.Retains u where
  size := Nat.le_of_eq (congrArg Array.size h.symbols_eq).symm
  symbol_eq _ := h.symbol_eq _

end SymbolTable

open SymbolTable (Retains)

/-! ## Statements -/

namespace Declaring

theorem newVariable?_retains (kind : SymbolKind) (type : TypeName) (name : Token) :
    (newVariable? types scope kind type name).Ends t fun r u => t.Retains u ∧
      ∀ a, r = some a → ∀ i ∈ a.2, i.index < u.symbols.size := by
  apply Ends.bind
  apply Ends.ofExcept
  · intro resolved _
    refine Ends.seq (Q := fun id? u => t.Retains u ∧ ∀ i ∈ id?, i.index < u.symbols.size) ?_ ?_
    · apply Ends.add?
      · intro id u hadd
        have hadds := SymbolTable.adds_of_addSymbol? hadd
        refine ⟨hadds.retains, ?_⟩
        rintro _ ⟨⟩
        exact SymbolTable.symbol_lt_of_symbol? hadds.entry
      · exact fun _ => ⟨.refl t, nofun⟩
    · rintro id? u ⟨hretains, hid⟩
      refine .report_if (.pure ⟨hretains, ?_⟩)
      rintro _ ⟨⟩
      exact hid
  · exact .pure ⟨.refl t, nofun⟩

theorem blockScope?_retains (name : String) :
    (blockScope? scope name).Ends t fun _ u => t.Retains u := by
  apply Ends.bind
  apply Ends.add?
  · exact fun _ _ hadd => .pure (SymbolTable.opens_of_addSubScope? hadd).retains
  · exact fun _ => ⟨.refl t⟩

end Declaring

namespace Stmt

/-- The symbols in `js` are symbols in `is` or symbols of the table. -/
def Carried (is : List SymbolId) (u : SymbolTable) (js : List SymbolId) : Prop :=
  ∀ j ∈ js, j ∈ is ∨ j.index < u.symbols.size

/-- A run from `t` changes no symbol, and leaves statements whose symbols are those in `is` or
symbols of the table `u`. -/
structure Keeps (t : SymbolTable) (is js : List SymbolId) (u : SymbolTable) : Prop where
  retains : t.Retains u
  carried : Carried is u js

theorem Keeps.refl (t : SymbolTable) (is : List SymbolId) : Keeps t is is t :=
  ⟨.refl t, fun _ => .inl⟩

theorem Keeps.append {is is' js js' : List SymbolId} (h : Keeps t is js u)
    (k : Keeps u is' js' v) : Keeps t (is ++ is') (js ++ js') v where
  retains := h.retains.trans k.retains
  carried j hj := by
    rcases List.mem_append.mp hj with hj | hj
    · exact (h.carried j hj).imp (List.mem_append_left _) fun hlt =>
        Nat.lt_of_lt_of_le hlt k.retains.size
    · exact (k.carried j hj).imp_left (List.mem_append_right _)

theorem declareAll_keeps {ss : List Stmt}
    (ih : ∀ s ∈ ss, ∀ t, (s.declare types scope loops).Ends t fun s' u =>
      Keeps t s.symbols s'.symbols u) :
    (declare.declareAll types scope loops ss).Ends t fun ss' u =>
      Keeps t (symbols.symbolsAll ss) (symbols.symbolsAll ss') u := by
  induction ss generalizing t with
  | nil => exact .pure (.refl t _)
  | cons s ss ihs =>
      unfold declare.declareAll
      refine Declaring.Ends.seq (ih s (by simp) t) fun _ u h => ?_
      refine Declaring.Ends.seq (ihs fun s hs => ih s (by simp [hs])) fun _ v h' => ?_
      exact .pure (h.append h')

theorem block_keeps {openBrace : Token} {statements : List Stmt}
    (ih : ∀ s ∈ statements, ∀ scope t, (s.declare types scope loops).Ends t fun s' u =>
      Keeps t s.symbols s'.symbols u) :
    (Declaring.block types scope loops openBrace statements).Ends t fun ss' u =>
      Keeps t (symbols.symbolsAll statements) (symbols.symbolsAll ss') u := by
  unfold Declaring.block
  refine Declaring.Ends.seq (Declaring.blockScope?_retains _) fun inner? u h => ?_
  cases inner? with
  | none => exact .pure ⟨h, fun _ => .inl⟩
  | some inner =>
      exact (declareAll_keeps fun s hs => ih s hs inner).mono fun _ _ h' =>
        ⟨h.trans h'.retains, h'.carried⟩

/-- A statement changes no symbol that is there, and its variables carry symbols that are. -/
theorem declare_keeps (s : Stmt) : (s.declare types scope loops).Ends t fun s' u =>
    Keeps t s.symbols s'.symbols u := by
  induction s using tree_induction generalizing t scope loops with
  | empty | assign | returnValue | call => exact .pure (.refl t _)
  | breakLoop token =>
      unfold declare
      exact .report_if (.pure (.refl t _))
  | whileLoop condition body token ih => exact .seq ih fun _ _ h => .pure h
  | ifThen condition thenBranch token ih => exact .seq ih fun _ _ h => .pure h
  | ifThenElse condition thenBranch elseBranch token ihthen ihelse =>
      unfold declare
      exact .seq ihthen fun _ _ h => .seq ihelse fun _ _ h' => .pure (h.append h')
  | block statements openBrace ih =>
      rw [declare_block]
      exact .seq (block_keeps fun s hs _ _ => ih s hs) fun _ _ h => .pure h
  | varDecl type name initializer? symbol? =>
      unfold declare
      refine Declaring.Ends.seq (Declaring.newVariable?_retains _ type name) ?_
      rintro r u ⟨hretains, hcarried⟩
      cases r with
      | none => exact .pure ⟨hretains, fun _ => .inl⟩
      | some r =>
          refine .pure ⟨hretains, fun j hj => .inr (hcarried r rfl j ?_)⟩
          exact Option.mem_toList.mp hj

end Stmt

/-! ## Functions -/

namespace Global

/-- The definitions differ in the bodies of functions only. -/
inductive SameHead : Global → Global → Prop
  | function {f f' : FnDef} : f.SameHead f' → SameHead (function f) (function f')
  | var {v : GlobalVar} : SameHead (var v) (var v)

variable {f f' : FnDef} {g g' : Global} {N : String → Prop}

/-- Behind its body the name of a function means what it means when it is entered, and the
variables in the body carry symbols of the table. -/
theorem declare_head (types : TypeTable) (ht : t.Nested) (hnew : f.symbol? = none) :
    ((function f).declare types).Ends t fun g v =>
      (∀ f', g = function f' → Stmt.Carried (Stmt.symbols.symbolsAll f.body) v
        (Stmt.symbols.symbolsAll f'.body)) ∧
      v.meaning? .global f.name.text = (f.enter types t).value.2.meaning? .global f.name.text := by
  have hentered : (f.enter types).Ends t fun _ u => u = (f.enter types t).value.2 := ⟨rfl⟩
  rw [declare_function]
  refine Declaring.Ends.seq (hentered.and (FnDef.enter_ends ht hnew)) ?_
  rintro ⟨f', scope?⟩ u ⟨hu, hevolves, -, hbody, -, -, hsome⟩
  rw [← hu, ← show f'.body = f.body from hbody]
  cases scope? with
  | none =>
      refine .pure ⟨?_, rfl⟩
      rintro _ ⟨⟩
      exact fun _ => .inl
  | some scope =>
      obtain ⟨-, hscope⟩ := hsome scope rfl
      obtain ⟨id, hid⟩ := hevolves.nested.function hscope
      refine Declaring.Ends.seq ((Stmt.block_keeps fun s _ _ _ => s.declare_keeps).and
        (Declaring.block_ends hevolves.nested (hevolves.nested.known_inner hscope)
          (hevolves.nested.inner_ne_global hscope) fun _ _ _ _ => Stmt.declare_ends)) ?_
      rintro body v ⟨hkeeps, hevolves', -⟩
      refine .pure ⟨?_, hkeeps.retains.meaning?_eq hevolves.nested hevolves' hid⟩
      rintro _ ⟨⟩
      exact hkeeps.carried

namespace SameHead

variable (h : g.SameHead g')
include h

theorem name_eq : g.name = g'.name := by
  cases h with
  | var => rfl
  | function hf =>
      unfold FnDef.SameHead at hf
      rw [hf]
      rfl

/-- The names of definitions with the same head mean the same. -/
theorem meaning?_eq (types : TypeTable) (hg : g.IsNew) (hg' : g'.IsNew) :
    g.meaning? types = g'.meaning? types := by
  have hname := h.name_eq
  cases h with
  | var => rfl
  | @function f f' hf =>
      have hnested := SymbolTable.nested_empty
      have hstart : SymbolTable.Beside ⟨.empty, .global⟩ ⟨.empty, .global⟩ f.name.text
          .empty .empty :=
        .start_global hnested hnested SymbolTable.local?_empty SymbolTable.local?_empty
      have hbeside := (FnDef.enter_alongside types hstart rfl rfl hf).value.1
      have hname : f.name = f'.name := hname
      have hhead := (declare_head types hnested hg).post.2
      have hhead' := (declare_head types hnested hg').post.2
      rw [← hname] at hhead'
      unfold meaning? name
      dsimp only
      rw [← hname]
      exact hhead.trans ((hbeside.meaning?_eq (.global rfl rfl)).trans hhead'.symm)

end SameHead

end Global

end ScriptFront
