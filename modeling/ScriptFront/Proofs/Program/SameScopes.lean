import ScriptFront.Proofs.Program.Cursor
import ScriptFront.Proofs.Program.Housed
import ScriptFront.Proofs.Program.Names

/-!
# Both analyses walk the same scopes

Run with a cursor, both analyses do what they do without one, and the cursor ends where
it has begun. It goes through the scopes that the symbol table has in the end.
-/
namespace ScriptFront

/-! ## Runs with a cursor -/

namespace Walking

variable {α β : Type} {w : Walking α} {m : Declaring α} {t : SymbolTable} {c c' c₁ : Cursor}

/-- From the cursor `c` and the table `t` the walk does what the computation does, and
leaves the cursor at `c'`. -/
structure Traces (w : Walking α) (c : Cursor) (m : Declaring α) (t : SymbolTable)
    (c' : Cursor) : Prop where
  run : w c t = ⟨(((m t).value.1, c'), (m t).value.2), (m t).diagnostics⟩

namespace Traces

theorem pure {a : α} : Traces (Pure.pure a) c (Pure.pure a) t c := ⟨rfl⟩

theorem lift : Traces (liftM m) c m t c := by
  constructor
  change Reported.mk _ (_ ++ []) = _
  rw [List.append_nil]
  rfl

theorem bind {f : α → Walking β} {g : α → Declaring β} (h : Traces w c m t c₁)
    (hf : Traces (f (m t).value.1) c₁ (g (m t).value.1) (m t).value.2 c') :
    Traces (w >>= f) c (m >>= g) t c' := by
  constructor
  have hstep : (w >>= f) c t = ⟨(f (w c t).value.1.1 (w c t).value.1.2 (w c t).value.2).value,
    (w c t).diagnostics ++ (f (w c t).value.1.1 (w c t).value.1.2 (w c t).value.2).diagnostics⟩ :=
    rfl
  rw [hstep, h.run]
  dsimp only
  rw [hf.run]
  rfl

theorem silent {a : α} {f : α → Walking β} {m : Declaring β}
    (h : w c t = ⟨((a, c₁), t), []⟩) (hf : Traces (f a) c₁ m t c') :
    Traces (w >>= f) c m t c' := by
  have hstep : Traces w c (Pure.pure a) t c₁ := ⟨h⟩
  have hboth := hstep.bind (g := fun _ => m) hf
  rwa [pure_bind] at hboth

theorem map {g : α → β} (h : Traces w c m t c') :
    Traces (w >>= fun a => Pure.pure (g a)) c (m >>= fun a => Pure.pure (g a)) t c' :=
  h.bind .pure

end Traces
end Walking

/-! ## Stops -/

/-- The stops in front of a node and behind it, with those inside. -/
def Stop.around (kind : NodeKind) (token : Token) (scope : ScopeId) (inside : List Stop) :
    List Stop :=
  ⟨kind, token, .reached, scope⟩ :: (inside ++ [⟨kind, token, .left, scope⟩])

/-- The stops of a block, whose statements are looked at in the scope of the block. -/
def Stop.ofBlock (t : SymbolTable) (scope : ScopeId) (openBrace : Token)
    (inside : ScopeId → List Stop) : List Stop :=
  around .block openBrace scope <|
    match t.subScope? scope (Stmt.blockScopeName openBrace) with
    | none => []
    | some inner => ⟨.block, openBrace, .entered, inner⟩ :: inside inner

/-- The stops of a walk over a statement in a scope, by the scopes of a table. -/
def Stmt.stops (t : SymbolTable) (scope : ScopeId) : Stmt → List Stop
  | whileLoop _ body token => Stop.around .whileLoop token scope (body.stops t scope)
  | ifThen _ thenBranch token => Stop.around .ifThen token scope (thenBranch.stops t scope)
  | ifThenElse _ thenBranch elseBranch token =>
      Stop.around .ifThenElse token scope (thenBranch.stops t scope ++ elseBranch.stops t scope)
  | block statements openBrace =>
      Stop.ofBlock t scope openBrace fun inner => stopsAll inner statements
  | s => Stop.around s.nodeKind s.token scope []
where
  stopsAll (scope : ScopeId) : List Stmt → List Stop
    | [] => []
    | s :: ss => s.stops t scope ++ stopsAll scope ss

def Global.stops (t : SymbolTable) : Global → List Stop
  | function f => Stop.around .fnDef f.name .global <|
      match f.scope? t with
      | none => []
      | some scope => ⟨.fnDef, f.name, .entered, scope⟩ ::
          Stop.ofBlock t scope f.openBrace fun inner => Stmt.stops.stopsAll t inner f.body
  | var v => Stop.around .globalVar v.name .global []

namespace Walking

variable {α β : Type} {w : Walking α} {m : Declaring α} {t : SymbolTable} {c : Cursor}
  {kind : NodeKind} {token openBrace : Token} {ℓ ℓ' : List Stop}

/-- The walk does what the computation does, and the cursor comes back to where it began,
by the stops of a list. -/
def Returns (w : Walking α) (c : Cursor) (m : Declaring α) (t : SymbolTable)
    (ℓ : List Stop) : Prop :=
  w.Traces c m t (c.noting ℓ)

namespace Returns

theorem pure {a : α} : Returns (Pure.pure a) c (Pure.pure a) t [] := by
  unfold Returns
  rw [Cursor.noting_nil]
  exact .pure

theorem seq {f : α → Walking β} {g : α → Declaring β} (h : w.Returns c m t ℓ)
    (hf : ∀ c', c'.current = c.current → c'.loops = c.loops →
      (f (m t).value.1).Returns c' (g (m t).value.1) (m t).value.2 ℓ') :
    (w >>= f).Returns c (m >>= g) t (ℓ ++ ℓ') := by
  unfold Returns
  rw [← Cursor.noting_noting]
  exact Traces.bind h (hf _ rfl rfl)

theorem map {g : α → β} (h : w.Returns c m t ℓ) :
    (w >>= fun a => Pure.pure (g a)).Returns c (m >>= fun a => Pure.pure (g a)) t ℓ :=
  Traces.map h

theorem within (h : ∀ c', c'.current = c.current → c'.loops = c.loops → w.Returns c' m t ℓ) :
    (Walking.within kind token w).Returns c m t (Stop.around kind token c.current ℓ) := by
  unfold Walking.within note Returns
  rw [← bind_pure m]
  refine .silent rfl (Traces.bind (h (c.note kind token .reached) rfl rfl) ?_)
  refine .silent (a := ()) ?_ .pure
  change Reported.mk _ _ = _
  congr 3
  simp [Cursor.note, Stop.around]

/-- A walk over a block that has a scope. The cursor finds back, because the scope of
the block lies in the one in which the walk was before, and has the name of the block. -/
theorem block {pass : Pass} {inner : ScopeId} {statements : List Stmt}
    {inside : Walking (List Stmt)} {g : Option ScopeId → Declaring (List Stmt)}
    {u : SymbolTable}
    (henter : (pass.enterBlock c.current (Stmt.blockScopeName openBrace) t).value =
      (some inner, u))
    (hparent : (g (some inner) u).value.2.parent? inner = some c.current)
    (hname : (g (some inner) u).value.2.name? inner = some (Stmt.blockScopeName openBrace))
    (hinside : ∀ c', c'.current = inner → c'.loops = c.loops →
      inside.Returns c' (g (some inner)) u ℓ) :
    (Walking.block pass openBrace statements inside).Returns c
      (pass.enterBlock c.current (Stmt.blockScopeName openBrace) >>= g) t
      (Stop.around .block openBrace c.current (⟨.block, openBrace, .entered, inner⟩ :: ℓ)) := by
  unfold Walking.block
  apply within
  intro c₀ hcurrent hloops
  refine .silent rfl ?_
  rw [hcurrent]
  refine .bind .lift ?_
  rw [henter]
  refine .silent (a := ()) rfl ?_
  dsimp only
  rw [← bind_pure (g (some inner))]
  refine .silent (a := ()) rfl ?_
  refine .bind (hinside _ rfl hloops) ?_
  refine .silent rfl ?_
  refine .silent (a := ()) ?_ .pure
  change Reported.mk _ _ = _
  congr 3
  simp [Cursor.leaveBlock, Cursor.leaveScope, hname, hparent, Cursor.enterBlock, Cursor.note,
    Cursor.noting, hcurrent]

section
variable {pass : Pass} {f f' : FnDef} {u : SymbolTable}
  {k : FnDef × Option ScopeId → Declaring Global}

theorem refused (henter : (pass.enterFunction f t).value = ((f', none), u))
    (hk : k (f', none) = Pure.pure (Global.function f')) :
    ((Global.function f).walk pass).Returns c (pass.enterFunction f >>= k) t
      (Stop.around .fnDef f.name c.current []) := by
  unfold Global.walk
  apply within
  intro c₀ hcurrent hloops
  refine .bind .lift ?_
  rw [henter]
  dsimp only
  rw [hk]
  refine .silent (a := ()) rfl ?_
  refine .silent rfl ?_
  refine .silent rfl ?_
  refine .silent (a := ()) ?_ .pure
  change Reported.mk _ _ = _
  congr 3
  simp [Cursor.leaveFunction, Cursor.enterFunction]

theorem entered {scope : ScopeId} {m : Declaring (List Stmt)}
    (henter : (pass.enterFunction f t).value = ((f', some scope), u))
    (hk : k (f', some scope) = m >>= fun body => Pure.pure (Global.function { f' with body }))
    (hparent : (m u).value.2.parent? scope = some c.current)
    (hinside : ∀ c', c'.current = scope → c'.loops = c.loops →
      (Walking.block pass f'.openBrace f'.body (Stmt.walk.walkAll pass f'.body)).Returns c' m u ℓ) :
    ((Global.function f).walk pass).Returns c (pass.enterFunction f >>= k) t
      (Stop.around .fnDef f.name c.current (⟨.fnDef, f'.name, .entered, scope⟩ :: ℓ)) := by
  unfold Global.walk
  apply within
  intro c₀ hcurrent hloops
  refine .bind .lift ?_
  rw [henter]
  dsimp only
  rw [hk]
  refine .silent (a := ()) rfl ?_
  refine .silent (a := ()) rfl ?_
  refine .bind (hinside _ rfl hloops) ?_
  refine .silent rfl ?_
  refine .silent rfl ?_
  refine .silent (a := ()) ?_ .pure
  change Reported.mk _ _ = _
  congr 3
  simp [Cursor.leaveFunction, Cursor.leaveScope, Cursor.enterFunction, Cursor.note, Cursor.noting,
    hparent, hcurrent]

end

end Returns
end Walking

/-! ## The first analysis -/

section
variable {types : TypeTable} {t v : SymbolTable} {scope : ScopeId} {loops : ℕ}

theorem Stop.ofBlock_of_subScope? {openBrace : Token} {inner : ScopeId}
    {inside : ScopeId → List Stop}
    (h : v.subScope? scope (Stmt.blockScopeName openBrace) = some inner) :
    Stop.ofBlock v scope openBrace inside =
      around .block openBrace scope (⟨.block, openBrace, .entered, inner⟩ :: inside inner) := by
  unfold Stop.ofBlock
  rw [h]

theorem Stmt.walkAll_first {ss : List Stmt} (hroot : scope ≠ .global)
    (ih : ∀ s ∈ ss, ∀ {t : SymbolTable} {c : Cursor}, t.Nested → t.Known scope →
      (s.declare types scope loops t).value.2.Extends v → c.current = scope → c.loops = loops →
      (s.walk (.first types)).Returns c (s.declare types scope loops) t
        ((s.declare types scope loops t).value.1.stops v scope))
    {t : SymbolTable} {c : Cursor} (ht : t.Nested) (hs : t.Known scope)
    (hv : (declare.declareAll types scope loops ss t).value.2.Extends v)
    (hcurrent : c.current = scope) (hloops : c.loops = loops) :
    (walk.walkAll (.first types) ss).Returns c (declare.declareAll types scope loops ss) t
      (stops.stopsAll v scope (declare.declareAll types scope loops ss t).value.1) := by
  induction ss generalizing t c with
  | nil => exact .pure
  | cons s ss ihs =>
      unfold walk.walkAll
      obtain ⟨hevolves, -⟩ := (declare_ends (s := s) ht hs hroot).post
      have hknown := hevolves.known hs
      obtain ⟨hrest, -⟩ := (declareAll_ends hevolves.nested hknown
        fun s _ _ ht hs => declare_ends ht hs hroot).post
      have hfirst := ih s (by simp) ht hs (hrest.toExtends.trans hv) hcurrent hloops
      exact hfirst.seq fun c' hcurrent' hloops' =>
        (ihs (fun s hs => ih s (by simp [hs])) hevolves.nested hknown hv
          (hcurrent'.trans hcurrent) (hloops'.trans hloops)).map

theorem Walking.Returns.block_first {ss : List Stmt} {openBrace : Token} {c : Cursor}
    (ht : t.Nested) (hs : t.Known scope) (hroot : scope ≠ .global)
    (ih : ∀ s ∈ ss, ∀ {t : SymbolTable} {c : Cursor} {scope : ScopeId}, t.Nested →
      t.Known scope → scope ≠ .global → (s.declare types scope loops t).value.2.Extends v →
      c.current = scope → c.loops = loops →
      (s.walk (.first types)).Returns c (s.declare types scope loops) t
        ((s.declare types scope loops t).value.1.stops v scope))
    (hv : (Declaring.block types scope loops openBrace ss t).value.2.Extends v)
    (hcurrent : c.current = scope) (hloops : c.loops = loops) :
    (Walking.block (.first types) openBrace ss (Stmt.walk.walkAll (.first types) ss)).Returns c
      (Declaring.block types scope loops openBrace ss) t
      (Stop.ofBlock v scope openBrace fun inner => Stmt.stops.stopsAll v inner
        (Declaring.block types scope loops openBrace ss t).value.1) := by
  obtain ⟨hevolves, inner, hinner, hopened⟩ :=
    (Declaring.blockScope?_ends ht hs hroot (Stmt.blockScopeName openBrace)).post
  obtain ⟨u, henter⟩ : ∃ u, (Declaring.blockScope? scope (Stmt.blockScopeName openBrace) t).value =
      (some inner, u) := ⟨_, Prod.ext hinner rfl⟩
  rw [henter] at hevolves hopened
  have hbelow := hevolves.nested.inner_ne_global hopened
  have hknown := hevolves.nested.known_inner hopened
  rw [Declaring.block_value henter] at hv ⊢
  have hends : (Stmt.declare.declareAll types inner loops ss).Ends u (Stmt.AllEvolve inner u) :=
    Stmt.declareAll_ends hevolves.nested hknown fun s _ _ ht hs => Stmt.declare_ends ht hs hbelow
  obtain ⟨hrest, -⟩ := hends.post
  have hthere := hrest.opened hopened
  obtain ⟨hparent, hname⟩ := hrest.nested.child hthere
  rw [Stop.ofBlock_of_subScope? (hv.opened hthere)]
  subst hcurrent hloops
  refine .block (g := Declaring.blockInside types c.loops ss) henter hparent hname ?_
  intro c' hcurrent hloops
  exact Stmt.walkAll_first hbelow (fun s hs _ c' ht hs' => ih s hs ht hs' hbelow)
    hevolves.nested hknown hv hcurrent hloops

theorem Walking.Returns.simple (pass : Pass) {s : Stmt} {c : Cursor}
    (hwalk : s.walk pass = Walking.within s.nodeKind s.token do
      let c ← get
      pass.simple c.current c.loops s)
    (hcurrent : c.current = scope) (hloops : c.loops = loops) :
    (s.walk pass).Returns c (pass.simple scope loops s) t
      (Stop.around s.nodeKind s.token scope []) := by
  rw [hwalk, ← hcurrent]
  apply Walking.Returns.within
  intro c' hcurrent' hloops'
  refine .silent rfl ?_
  rw [hcurrent', hloops', hloops, Cursor.noting_nil]
  exact .lift

theorem Stmt.stops_varDecl (ht : t.Nested) (type : TypeName) (name : Token)
    (initializer? : Option Expr) (symbol? : Option SymbolId) :
    ((varDecl type name initializer? symbol?).declare types scope loops t).value.1.stops v scope =
      Stop.around .varDecl type.token scope [] := by
  have hends : ((varDecl type name initializer? symbol?).declare types scope loops).Ends t
      fun s' _ => s'.stops v scope = Stop.around .varDecl type.token scope [] := by
    unfold declare
    refine .seq (Declaring.newVariable?_ends ht _ type name) ?_
    rintro r u ⟨-, htoken⟩
    cases r with
    | none => exact .pure rfl
    | some v =>
        apply Declaring.Ends.pure
        rw [← htoken v rfl]
        rfl
  exact hends.post

theorem Stmt.walk_first {s : Stmt} {c : Cursor} (ht : t.Nested) (hs : t.Known scope)
    (hroot : scope ≠ .global) (hv : (s.declare types scope loops t).value.2.Extends v)
    (hcurrent : c.current = scope) (hloops : c.loops = loops) :
    (s.walk (.first types)).Returns c (s.declare types scope loops) t
      ((s.declare types scope loops t).value.1.stops v scope) := by
  induction s using Stmt.tree_induction generalizing t scope loops c with
  | empty token => exact .simple _ rfl hcurrent hloops
  | breakLoop token =>
      have hstops : ((breakLoop token).declare types scope loops t).value.1.stops v scope =
          Stop.around .breakLoop token scope [] := by
        unfold declare
        dsimp only
        split_ifs <;> rfl
      rw [hstops]
      exact .simple _ rfl hcurrent hloops
  | whileLoop condition body token ih =>
      unfold walk declare
      subst hcurrent hloops
      apply Walking.Returns.within
      intro c' hcurrent hloops
      have hbody := ih (c := c'.enterLoop) ht hs hroot hv hcurrent (congrArg (· + 1) hloops)
      refine .silent (a := ()) rfl ?_
      refine .silent rfl ?_
      refine .silent rfl ?_
      refine .bind hbody ?_
      refine .silent rfl ?_
      refine .silent (a := ()) ?_ .pure
      change Reported.mk _ _ = _
      congr 3
      simp [Pass.first, Cursor.leaveLoop, Cursor.enterLoop, Cursor.noting]
  | ifThen condition thenBranch token ih =>
      unfold walk declare
      subst hcurrent hloops
      apply Walking.Returns.within
      intro c' hcurrent hloops
      have hbranch := ih (c := c') ht hs hroot hv hcurrent hloops
      refine .silent rfl ?_
      refine .silent rfl ?_
      refine .bind hbranch ?_
      exact .silent rfl .pure
  | ifThenElse condition thenBranch elseBranch token ihthen ihelse =>
      unfold walk declare
      obtain ⟨hevolves, -⟩ := (declare_ends (s := thenBranch) ht hs hroot).post
      have hknown := hevolves.known hs
      obtain ⟨hrest, -⟩ := (declare_ends (s := elseBranch) hevolves.nested hknown hroot).post
      subst hcurrent hloops
      apply Walking.Returns.within
      intro c' hcurrent hloops
      have hthen := ihthen (c := c') ht hs hroot (hrest.toExtends.trans hv) hcurrent hloops
      refine .silent rfl ?_
      refine .silent rfl ?_
      refine hthen.seq fun c₁ hcurrent₁ hloops₁ => ?_
      have helse := ihelse (c := c₁) hevolves.nested hknown hroot hv (hcurrent₁.trans hcurrent)
        (hloops₁.trans hloops)
      refine .bind helse ?_
      exact .silent rfl .pure
  | block statements openBrace ih =>
      rw [declare_block] at hv ⊢
      unfold walk
      exact .map (.block_first ht hs hroot (fun s hs _ c _ ht hs' => ih s hs ht hs') hv hcurrent
        hloops)
  | assign target value => exact .simple _ rfl hcurrent hloops
  | returnValue value? token => exact .simple _ rfl hcurrent hloops
  | varDecl type name initializer? symbol? =>
      rw [stops_varDecl ht]
      exact .simple _ rfl hcurrent hloops
  | call callee args openParen => exact .simple _ rfl hcurrent hloops

theorem GlobalVar.name_of_declare (ht : t.Nested) (var : GlobalVar) :
    (var.declare types t).value.1.name = var.name := by
  have hends : (var.declare types).Ends t fun var' _ => var'.name = var.name := by
    unfold declare
    refine .seq (Declaring.newVariable?_ends ht _ _ _) ?_
    intro r u _
    cases r with
    | none => exact .pure rfl
    | some r => exact .pure rfl
  exact hends.post

theorem Global.walk_first {g : Global} {c : Cursor} (ht : t.Nested) (hnew : g.IsNew)
    (hv : (g.declare types t).value.2.Extends v) (hcurrent : c.current = .global)
    (hloops : c.loops = 0) :
    (g.walk (.first types)).Returns c (g.declare types) t
      ((g.declare types t).value.1.stops v) := by
  cases g with
  | function f =>
      rw [declare_function, Declaring.value_bind] at hv ⊢
      obtain ⟨hevolves, hname, -, -, hnone, hsome⟩ := (FnDef.enter_ends ht hnew).post
      obtain ⟨f', scope?, u, henter⟩ : ∃ f' scope? u, (f.enter types t).value =
          ((f', scope?), u) := ⟨_, _, _, rfl⟩
      rw [henter] at hevolves hname hnone hsome hv ⊢
      dsimp only at *
      cases scope? with
      | none =>
          have hstops : (function f').stops v = Stop.around .fnDef f.name .global [] := by
            simp [stops, FnDef.scope?, hnone rfl, hname]
          change Walking.Returns _ _ _ _ ((function f').stops v)
          rw [hstops, ← hcurrent]
          exact .refused henter rfl
      | some scope =>
          obtain ⟨hsymbol, hopened⟩ := hsome scope rfl
          have hknown := hevolves.nested.known_inner hopened
          have hbelow := hevolves.nested.inner_ne_global hopened
          have hends : (Declaring.block types scope 0 f'.openBrace f'.body).Ends u _ :=
            Declaring.block_ends hevolves.nested hknown hbelow fun _ _ _ _ => Stmt.declare_ends
          obtain ⟨hrest, -⟩ := hends.post
          have hthere := hrest.opened hopened
          have hstops : ∀ body, (function { f' with body }).stops v =
              Stop.around .fnDef f.name .global
                (⟨.fnDef, f'.name, .entered, scope⟩ :: Stop.ofBlock v scope f'.openBrace
                  fun inner => Stmt.stops.stopsAll v inner body) := by
            intro body
            obtain ⟨id, hid⟩ := Option.isSome_iff_exists.mp hsymbol
            simp only [stops, FnDef.scope?, hid, Option.bind_some, hname, hv.opened hthere]
          change Walking.Returns _ _ _ _ ((function { f' with body := _ }).stops v)
          rw [hstops, ← hcurrent]
          refine .entered henter rfl ?_ ?_
          · rw [hcurrent]
            exact (hrest.nested.child hthere).1
          · intro c' hcurrent' hloops'
            exact .block_first hevolves.nested hknown hbelow
              (fun s _ _ _ _ => Stmt.walk_first) hv hcurrent' (hloops'.trans hloops)
  | var var =>
      unfold declare walk at *
      dsimp only at *
      rw [map_eq_pure_bind]
      change Walking.Returns _ _ _ _
        (Stop.around .globalVar (var.declare types t).value.1.name _ [])
      rw [GlobalVar.name_of_declare ht, ← hcurrent]
      apply Walking.Returns.within
      intro c' hcurrent' hloops'
      refine .silent rfl ?_
      rw [hcurrent', hcurrent, Cursor.noting_nil]
      exact .bind .lift .pure

theorem Global.walkAll_first {gs : List Global} {c : Cursor} (ht : t.Nested)
    (hnew : ∀ g ∈ gs, g.IsNew) (hv : (declareAll types gs t).value.2.Extends v)
    (hcurrent : c.current = .global) (hloops : c.loops = 0) :
    (walkAll (.first types) gs).Returns c (declareAll types gs) t
      ((declareAll types gs t).value.1.flatMap (stops v)) := by
  induction gs generalizing t c with
  | nil => exact .pure
  | cons g gs ih =>
      unfold walkAll declareAll
      unfold declareAll at hv
      have hfirst := hnew g (by simp)
      have hrest : ∀ g ∈ gs, g.IsNew := fun g hg => hnew g (by simp [hg])
      obtain ⟨hevolves, -⟩ := (declare_ends ht hfirst).post
      obtain ⟨hlast, -⟩ := (declareAll_ends hevolves.nested hrest).post
      change Walking.Returns _ _ _ _ (stops v _ ++ List.flatMap (stops v) _)
      exact (walk_first ht hfirst (hlast.toExtends.trans hv) hcurrent hloops).seq
        fun c' hcurrent' hloops' => .map (ih hevolves.nested hrest hv
          (hcurrent'.trans hcurrent) (hloops'.trans hloops))

end

/-! ## The second analysis -/

section
variable {types : TypeTable} {t : SymbolTable} {scope : ScopeId}

theorem Stmt.walkAll_second {ss : List Stmt} (hs : ∀ s ∈ ss, s.Housed t scope)
    (ih : ∀ s ∈ ss, ∀ {c : Cursor}, s.Housed t scope → c.current = scope →
      (s.walk (.second types)).Returns c (.reading fun t => s.check types t scope) t
        (s.stops t scope))
    {c : Cursor} (hcurrent : c.current = scope) :
    (walk.walkAll (.second types) ss).Returns c
      (.reading fun t => check.checkAll types t scope ss) t (stops.stopsAll t scope ss) := by
  induction ss generalizing c with
  | nil => exact .pure
  | cons s ss ihs =>
      have hcheck : (Declaring.reading fun t => check.checkAll types t scope (s :: ss)) = (do
          let s ← .reading fun t => s.check types t scope
          let ss ← .reading fun t => check.checkAll types t scope ss
          return s :: ss) := rfl
      rw [hcheck]
      exact (ih s (by simp) (hs s (by simp)) hcurrent).seq fun c' hcurrent' _ =>
        .map (ihs (fun s hm => hs s (by simp [hm])) (fun s hm => ih s (by simp [hm]))
          (hcurrent'.trans hcurrent))

theorem Walking.Returns.block_second {ss : List Stmt} {openBrace : Token} {inner : ScopeId}
    (ht : t.Nested) (hinner : t.subScope? scope (Stmt.blockScopeName openBrace) = some inner)
    (hs : ∀ s ∈ ss, s.Housed t inner)
    (ih : ∀ s ∈ ss, ∀ {c : Cursor}, s.Housed t inner → c.current = inner →
      (s.walk (.second types)).Returns c (.reading fun t => s.check types t inner) t
        (s.stops t inner))
    {c : Cursor} (hcurrent : c.current = scope) :
    (Walking.block (.second types) openBrace ss (Stmt.walk.walkAll (.second types) ss)).Returns c
      (.reading fun t => Checking.block types t ss
        (t.subScope? scope (Stmt.blockScopeName openBrace))) t
      (Stop.ofBlock t scope openBrace fun inner => Stmt.stops.stopsAll t inner ss) := by
  have hread : (Declaring.reading fun t => Checking.block types t ss
      (t.subScope? scope (Stmt.blockScopeName openBrace))) =
      ((Pass.second types).enterBlock scope (Stmt.blockScopeName openBrace) >>= fun inner? =>
        .reading fun t => Checking.block types t ss inner?) := rfl
  obtain ⟨hparent, hname⟩ := ht.child hinner
  rw [hread, Stop.ofBlock_of_subScope? hinner]
  subst hcurrent
  have henter : ((Pass.second types).enterBlock c.current (Stmt.blockScopeName openBrace) t).value =
      (some inner, t) := Prod.ext hinner rfl
  exact .block henter hparent hname fun c' hcurrent' _ => Stmt.walkAll_second hs ih hcurrent'

theorem Stmt.walk_second {s : Stmt} {c : Cursor} (ht : t.Nested) (hs : s.Housed t scope)
    (hcurrent : c.current = scope) :
    (s.walk (.second types)).Returns c (.reading fun t => s.check types t scope) t
      (s.stops t scope) := by
  induction s using Stmt.tree_induction generalizing scope c with
  | empty | breakLoop | assign | returnValue | varDecl | call =>
      exact .simple (.second types) rfl hcurrent rfl
  | whileLoop condition body token ih =>
      have hcheck : (Declaring.reading fun t => (whileLoop condition body token).check types t
          scope) = (do
            let condition ← .reading fun t => condition.bindNames t scope
            let body ← .reading fun t => body.check types t scope
            let condition ← .reading fun t => Checking.condition types t "while" token condition
            return whileLoop condition body token) := rfl
      rw [hcheck]
      unfold walk
      subst hcurrent
      apply Walking.Returns.within
      intro c' hcurrent _
      have hbody := ih (c := c') (hcurrent ▸ hs) rfl
      refine .silent (a := ()) rfl ?_
      refine .silent rfl ?_
      rw [← hcurrent]
      refine .bind .lift ?_
      refine .bind hbody ?_
      refine .bind .lift ?_
      exact .silent (a := ()) rfl .pure
  | ifThen condition thenBranch token ih =>
      have hcheck : (Declaring.reading fun t => (ifThen condition thenBranch token).check types t
          scope) = (do
            let condition ← .reading fun t => condition.bindNames t scope
            let thenBranch ← .reading fun t => thenBranch.check types t scope
            let condition ← .reading fun t => Checking.condition types t "if" token condition
            return ifThen condition thenBranch token) := rfl
      rw [hcheck]
      unfold walk
      subst hcurrent
      apply Walking.Returns.within
      intro c' hcurrent _
      have hbranch := ih (c := c') (hcurrent ▸ hs) rfl
      refine .silent rfl ?_
      rw [← hcurrent]
      refine .bind .lift ?_
      refine .bind hbranch ?_
      exact .bind .lift .pure
  | ifThenElse condition thenBranch elseBranch token ihthen ihelse =>
      have hcheck : (Declaring.reading fun t =>
          (ifThenElse condition thenBranch elseBranch token).check types t scope) = (do
            let condition ← .reading fun t => condition.bindNames t scope
            let thenBranch ← .reading fun t => thenBranch.check types t scope
            let elseBranch ← .reading fun t => elseBranch.check types t scope
            let condition ← .reading fun t => Checking.condition types t "if-else" token condition
            return ifThenElse condition thenBranch elseBranch token) := rfl
      rw [hcheck]
      unfold walk
      subst hcurrent
      apply Walking.Returns.within
      intro c' hcurrent _
      have hthen := ihthen (c := c') (hcurrent ▸ hs.1) rfl
      refine .silent rfl ?_
      rw [← hcurrent]
      refine .bind .lift ?_
      refine hthen.seq fun c₁ hcurrent₁ _ => ?_
      have helse := ihelse (c := c₁) (hcurrent ▸ hs.2) hcurrent₁
      refine .bind helse ?_
      exact .bind .lift .pure
  | block statements openBrace ih =>
      obtain ⟨inner, hinner, hall⟩ := hs
      have hcheck : (Declaring.reading fun t => (block statements openBrace).check types t scope) =
          ((Declaring.reading fun t => Checking.block types t statements
            (t.subScope? scope (blockScopeName openBrace))) >>= fun statements =>
              pure (block statements openBrace)) := by
        simp only [check_block]
        rfl
      rw [hcheck]
      unfold walk
      exact .map (.block_second ht hinner (Stmt.Housed.allHoused_iff.mp hall)
        (fun s hs _ => ih s hs) hcurrent)

theorem Global.walk_second {g : Global} {c : Cursor} (ht : t.Nested) (hg : g.Housed t)
    (hcurrent : c.current = .global) :
    (g.walk (.second types)).Returns c (.reading fun t => g.check types t) t (g.stops t) := by
  cases g with
  | var v =>
      rw [show stops t (var v) = Stop.around .globalVar v.name .global [] from rfl, ← hcurrent]
      apply Walking.Returns.within
      intro c' _ _
      refine .silent rfl ?_
      refine .silent rfl ?_
      rw [Cursor.noting_nil]
      exact .pure
  | function f =>
      have hcheck : (Declaring.reading fun t => (function f).check types t) =
          ((Pass.second types).enterFunction f >>= fun r => .reading fun t =>
            match r.2 with
            | none => pure (function r.1)
            | some scope => Checking.block types t r.1.body
                (t.subScope? scope (Stmt.blockScopeName r.1.openBrace)) >>= fun body =>
                  pure (function { r.1 with body })) := by
        simp only [check_function]
        rfl
      rw [hcheck]
      cases hscope : f.scope? t with
      | none =>
          have hstops : (function f).stops t = Stop.around .fnDef f.name .global [] := by
            simp only [stops, hscope]
          have henter : ((Pass.second types).enterFunction f t).value = ((f, none), t) := by
            rw [← hscope]
            rfl
          rw [hstops, ← hcurrent]
          exact .refused henter rfl
      | some scope =>
          obtain ⟨id, hid, houter⟩ := Option.bind_eq_some_iff.mp hscope
          obtain ⟨outer, inner, hsub, hinner, hbody⟩ := hg (by rw [hid]; rfl)
          obtain rfl : scope = outer := Option.some.inj (houter.symm.trans hsub)
          have hstops : (function f).stops t = Stop.around .fnDef f.name .global
              (⟨.fnDef, f.name, .entered, scope⟩ :: Stop.ofBlock t scope f.openBrace
                fun inner => Stmt.stops.stopsAll t inner f.body) := by
            simp only [stops, hscope]
          have henter : ((Pass.second types).enterFunction f t).value = ((f, some scope), t) := by
            rw [← hscope]
            rfl
          rw [hstops, ← hcurrent]
          refine .entered henter (m := .reading fun t => Checking.block types t f.body
            (t.subScope? scope (Stmt.blockScopeName f.openBrace))) rfl ?_ ?_
          · rw [hcurrent]
            exact (ht.child houter).1
          · intro c' hcurrent' _
            exact .block_second ht hinner hbody (fun s _ _ => Stmt.walk_second ht) hcurrent'

theorem Global.walkAll_second {gs : List Global} {c : Cursor} (ht : t.Nested)
    (hgs : ∀ g ∈ gs, g.Housed t) (hcurrent : c.current = .global) :
    (walkAll (.second types) gs).Returns c (.reading fun t => checkAll types t gs) t
      (gs.flatMap (stops t)) := by
  induction gs generalizing c with
  | nil => exact .pure
  | cons g gs ih =>
      have hcheck : (Declaring.reading fun t => checkAll types t (g :: gs)) = (do
          let g ← .reading fun t => g.check types t
          let gs ← .reading fun t => checkAll types t gs
          return g :: gs) := rfl
      rw [hcheck, List.flatMap_cons]
      exact (walk_second ht (hgs g (by simp)) hcurrent).seq fun c' hcurrent' _ =>
        .map (ih (fun g hg => hgs g (by simp [hg])) (hcurrent'.trans hcurrent))

end

/-! ## Programs -/

/-- Run with a cursor, both analyses of the program do what they do without one, and go
through the same stops. After all definitions, and already after some of them, the
cursor is as it was at first: in the global scope, in no function and in no loop. -/
structure Program.WalksSameScopes (types : TypeTable) (p : Program) (stops : List Stop) :
    Prop where
  first : p.walk (.first types) {} .empty =
    ⟨(((p.declare types .empty).value.1, { stops }), (p.declare types .empty).value.2),
      (p.declare types .empty).diagnostics⟩
  second : (p.declare types .empty).value.1.walk (.second types) {}
      (p.declare types .empty).value.2 =
    ⟨((((p.declare types .empty).value.1.check types (p.declare types .empty).value.2).value,
      { stops }), (p.declare types .empty).value.2),
      ((p.declare types .empty).value.1.check types (p.declare types .empty).value.2).diagnostics⟩
  first_rests : ∀ gs, gs <+: p.globals → ∃ stops,
    (Global.walkAll (.first types) gs {} .empty).value.1.2 = { stops }
  second_rests : ∀ gs, gs <+: (p.declare types .empty).value.1.globals → ∃ stops,
    (Global.walkAll (.second types) gs {} (p.declare types .empty).value.2).value.1.2 = { stops }

/-- Both analyses of the program of a source walk the same scopes, whatever the first
one reports. -/
theorem Program.exists_walksSameScopes {source : String} {tokens : List Token} {p : Program}
    (types : TypeTable) (hsource : Token.ofSource source = .ok tokens)
    (hp : Program.ofTokens tokens = .ok p) : ∃ stops, p.WalksSameScopes types stops := by
  have hnew := isNew_of_source hsource hp
  have hempty := SymbolTable.nested_empty
  have hends : (Global.declareAll types p.globals).Ends .empty _ :=
    Global.declareAll_ends hempty hnew
  obtain ⟨hevolves, hhoused⟩ := hends.post
  refine ⟨(p.declare types .empty).value.1.globals.flatMap
    (Global.stops (p.declare types .empty).value.2), ?_, ?_, ?_, ?_⟩
  · exact (Global.walkAll_first (c := {}) hempty hnew (.refl _) rfl rfl).map.run
  · exact (Global.walkAll_second (c := {}) hevolves.nested hhoused rfl).map.run
  · intro gs hgs
    have hgs := fun g hg => hnew g (hgs.subset hg)
    exact ⟨_, congrArg (·.value.1.2)
      (Global.walkAll_first (c := {}) hempty hgs (.refl _) rfl rfl).run⟩
  · intro gs hgs
    have hgs := fun g hg => hhoused g (hgs.subset hg)
    exact ⟨_, congrArg (·.value.1.2)
      (Global.walkAll_second (c := {}) hevolves.nested hgs rfl).run⟩

/-- A loop with a block in it, and a function that is declared twice. -/
theorem Program.exists_walksSameScopes_of_fault :
    let source := "void f()\x7bwhile (true) \x7bint x;\x7d\x7d void f()\x7bbreak;\x7d"
    ∃ tokens p, Token.ofSource source = .ok tokens ∧ Program.ofTokens tokens = .ok p ∧
      (p.declare .primitives .empty).diagnostics =
        [⟨.functionAlreadyDeclared "f", ⟨1, 38⟩⟩] ∧
      ∃ stops, p.WalksSameScopes .primitives stops := by
  intro source
  have hfault : ((Token.ofSource source).bind Program.ofTokens).map
      (fun p => (p.declare .primitives .empty).diagnostics) =
        .ok [⟨.functionAlreadyDeclared "f", ⟨1, 38⟩⟩] := by decide +kernel
  obtain ⟨tokens, p, hsource, hp, hfault⟩ := exists_of_source hfault
  exact ⟨tokens, p, hsource, hp, hfault, exists_walksSameScopes .primitives hsource hp⟩

end ScriptFront
