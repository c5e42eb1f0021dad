import ScriptFront.Proofs.Program.Declared
import ScriptFront.Proofs.Typing.Parallel

/-!
# Declarations side by side

From alike symbol tables, alike programs are declared alike: the same additions are made
under the same numbers, and what cannot be added in one table cannot be added in the
other. The tables stay alike all the way, for the declared names are related.
-/
namespace ScriptFront

variable {α β γ δ : Type} {R D : Token → Token → Prop} {S : α → β → Prop} {T : γ → δ → Prop}

/-! ## Steps -/

/-- From alike tables, the computations give related values, report alike faults and
leave alike tables. -/
def Declaring.Parallel (R D : Token → Token → Prop) (S : α → β → Prop) (m : Declaring α)
    (m' : Declaring β) : Prop :=
  ∀ t t' : SymbolTable, t.Alike R D t' →
    Reported.Parallel R D (fun a b => S a.1 b.1 ∧ a.2.Alike R D b.2) (m t) (m' t')

namespace Declaring

namespace Parallel

variable {m : Declaring α} {m' : Declaring β}

theorem pure {a : α} {b : β} (h : S a b) :
    Parallel R D S (Pure.pure a : Declaring α) (Pure.pure b : Declaring β) :=
  fun _ _ ht => .pure ⟨h, ht⟩

theorem bind {f : α → Declaring γ} {g : β → Declaring δ} (h : Parallel R D S m m')
    (hf : ∀ a b, S a b → Parallel R D T (f a) (g b)) : Parallel R D T (m >>= f) (m' >>= g) :=
  fun t t' ht => (h t t' ht).bind fun a b hab => hf a.1 b.1 hab.1 a.2 b.2 hab.2

theorem bind_pure {f : α → γ} {g : β → δ} (h : Parallel R D S m m')
    (hf : ∀ a b, S a b → T (f a) (g b)) :
    Parallel R D T (m >>= fun a => Pure.pure (f a)) (m' >>= fun b => Pure.pure (g b)) :=
  h.bind fun a b hab => .pure (hf a b hab)

theorem mono {S' : α → β → Prop} (h : Parallel R D S m m') (hS : ∀ a b, S a b → S' a b) :
    Parallel R D S' m m' :=
  fun t t' ht => (h t t' ht).mono fun a b hab => ⟨hS a.1 b.1 hab.1, hab.2⟩

theorem lift {x : Reported α} {y : Reported β} (h : Reported.Parallel R D S x y) :
    Parallel R D S (StateT.lift x) (StateT.lift y) :=
  fun _ _ ht => h.bind_pure fun _ _ hab => ⟨hab, ht⟩

theorem report {fault fault' : Fault} {t t' : Token} (ht : R t t')
    (hfault : fault.Alike D t fault') :
    Parallel R D (fun _ _ => True) (Declaring.report fault t) (Declaring.report fault' t') :=
  lift (.report ht hfault)

theorem report_bind {fault fault' : Fault} {t t' : Token} {f : Unit → Declaring γ}
    {g : Unit → Declaring δ} (ht : R t t') (hfault : fault.Alike D t fault')
    (h : Parallel R D T (f ()) (g ())) :
    Parallel R D T (Declaring.report fault t >>= f) (Declaring.report fault' t' >>= g) :=
  (report ht hfault).bind fun _ _ _ => h

theorem report_if {fault fault' : Fault} {t t' : Token} {c : Prop} [Decidable c]
    {f : Unit → Declaring γ} {g : Unit → Declaring δ} (ht : R t t')
    (hfault : fault.Alike D t fault') (h : Parallel R D T (f ()) (g ())) :
    Parallel R D T (if c then Declaring.report fault t >>= f else f ())
      (if c then Declaring.report fault' t' >>= g else g ()) := by
  split_ifs
  · exact report_bind ht hfault h
  · exact h

theorem add? {f : SymbolTable → Option (α × SymbolTable)}
    {g : SymbolTable → Option (β × SymbolTable)}
    (h : ∀ t t' : SymbolTable, t.Alike R D t' →
      Option.Rel (fun a b => S a.1 b.1 ∧ a.2.Alike R D b.2) (f t) (g t')) :
    Parallel R D (Option.Rel S) (Declaring.add? f) (Declaring.add? g) := by
  intro t t' ht
  have hadd := h t t' ht
  unfold Declaring.add?
  generalize f t = a? at hadd
  generalize g t' = b? at hadd
  cases hadd with
  | none => exact .pure ⟨.none, ht⟩
  | some hab => exact .pure ⟨.some hab.1, hab.2⟩

theorem modify {f g : SymbolTable → SymbolTable}
    (h : ∀ t t' : SymbolTable, t.Alike R D t' → (f t).Alike R D (g t')) :
    Parallel R D (fun _ _ => True) (modifyThe SymbolTable f) (modifyThe SymbolTable g) :=
  fun t t' ht => .pure ⟨trivial, h t t' ht⟩

end Parallel

end Declaring

open Declaring (Parallel)

/-! ## Types -/

section
variable {x x' : TypeName} (hR : Token.Pairing R) (types : TypeTable)
include hR

theorem TypeName.Alike.fullName_eq (h : x.Alike R x') : x.fullName = x'.fullName := by
  rw [fullName, fullName, h.isArray, hR.text_eq h.token]

theorem TypeName.Alike.resolve (h : x.Alike R x') :
    Reported.Parallel R D Eq (Reported.ofExcept (types.resolve x))
      (Reported.ofExcept (types.resolve x')) := by
  unfold TypeTable.resolve
  rw [h.fullName_eq hR]
  cases types.get? x'.fullName with
  | none => exact ⟨rfl, .cons (.intro h.token rfl) .nil⟩
  | some type => exact ⟨rfl, .nil⟩

theorem TypeName.Alike.resolveStorage (h : x.Alike R x') :
    Reported.Parallel R D Eq (Reported.ofExcept (types.resolveStorage x))
      (Reported.ofExcept (types.resolveStorage x')) := by
  unfold TypeTable.resolveStorage TypeTable.resolve
  rw [h.fullName_eq hR]
  cases types.get? x'.fullName with
  | none => exact ⟨rfl, .cons (.intro h.token rfl) .nil⟩
  | some type =>
      simp only [Except.bind, bind, pure, throw]
      split_ifs
      · exact ⟨rfl, .cons (.intro h.token rfl) .nil⟩
      · exact ⟨rfl, .nil⟩

end

section
variable {e e' : Expr} (types : TypeTable)

theorem Expr.Alike.typeAll {es es' : List Expr}
    (h : List.Forall₂ (fun e e' => (e.typeLiterals types).Alike R (e'.typeLiterals types)) es es') :
    List.Forall₂ (Expr.Alike R) (typeLiterals.typeAll types es)
      (typeLiterals.typeAll types es') := by
  induction h with
  | nil => exact .nil
  | cons he _ ih => exact .cons he ih

theorem Expr.Alike.typeLiterals (h : e.Alike R e') :
    (e.typeLiterals types).Alike R (e'.typeLiterals types) := by
  induction h using Expr.Alike.induction with
  | literal ht => exact .literal ht
  | ident hi => exact .ident hi
  | unary _ ht iha => exact .unary iha ht
  | binary _ _ ht iha ihb => exact .binary iha ihb ht
  | call hi _ ht ih => exact .call hi (typeAll types (ih.imp fun _ _ ⟨_, ha⟩ => ha)) ht

theorem Expr.Alike.typeOptional {e? e?' : Option Expr} (h : Option.Rel (Expr.Alike R) e? e?') :
    Option.Rel (Expr.Alike R) (e?.map (·.typeLiterals types)) (e?'.map (·.typeLiterals types)) := by
  cases h with
  | none => exact .none
  | some he => exact .some (he.typeLiterals types)

end

/-! ## Names and scopes -/

section
variable {x x' : TypeName} {name name' : Token} (hR : Token.Pairing R) (types : TypeTable)
include hR

omit hR in
theorem Declaring.addSymbol?_parallel (scope : ScopeId) {symbol symbol' : Symbol}
    (h : symbol.Alike D symbol') :
    Parallel R D Eq (add? fun t => t.addSymbol? scope symbol)
      (add? fun t => t.addSymbol? scope symbol') := by
  have hadd : Parallel R D (Option.Rel Eq) (add? fun t => t.addSymbol? scope symbol)
      (add? fun t => t.addSymbol? scope symbol') := .add? fun _ _ ht => ht.addSymbol? h
  refine hadd.mono fun a? b? hab => ?_
  cases hab with
  | none => rfl
  | some hab => exact congrArg some hab

omit hR in
theorem Declaring.newSymbol?_parallel (scope : ScopeId) (kind : SymbolKind)
    (hname : D name name') (htext : name.text = name'.text) (type? : Option TypeId) :
    Parallel R D Eq (newSymbol? scope kind name type?) (newSymbol? scope kind name' type?) :=
  addSymbol?_parallel scope ⟨htext, rfl, hname, fun _ => rfl, rfl, rfl, rfl⟩

theorem Declaring.newVariable?_parallel (scope : ScopeId) (kind : SymbolKind)
    (hx : x.Alike R x') (ht : R name name') (hname : D name name') :
    Parallel R D (Option.Rel fun a b => a.1.Alike R b.1 ∧ a.2 = b.2)
      (newVariable? types scope kind x name) (newVariable? types scope kind x' name') := by
  unfold newVariable?
  refine (Parallel.lift (hx.resolveStorage hR types)).bind ?_
  rintro resolved? _ rfl
  cases resolved? with
  | none => exact .pure .none
  | some resolved =>
      dsimp only
      have htext := hR.text_eq ht
      have hx' : TypeName.Alike R { x with resolved? := some resolved }
          { x' with resolved? := some resolved } := { hx with resolved := rfl }
      refine (newSymbol?_parallel scope kind hname htext _).bind ?_
      rintro symbol? _ rfl
      rw [htext]
      exact .report_if ht rfl (.pure (.some ⟨hx', rfl⟩))

theorem Declaring.addSubScope?_parallel {scope : ScopeId} {name name' : String}
    (h : ScopeNames R scope name name') :
    Parallel R D (fun a b => a = b ∧ ∀ inner, a = some inner → inner ≠ .global)
      (add? fun t => t.addSubScope? scope name) (add? fun t => t.addSubScope? scope name') := by
  have hadd : Parallel R D (Option.Rel fun a b => a = b ∧ a ≠ .global)
      (add? fun t => t.addSubScope? scope name) (add? fun t => t.addSubScope? scope name') :=
    .add? fun _ _ ht => ht.addSubScope? hR h
  refine hadd.mono fun a? b? hab => ?_
  cases hab with
  | none => exact ⟨rfl, nofun⟩
  | some hab => exact ⟨congrArg some hab.1, fun _ hinner => Option.some.inj hinner ▸ hab.2⟩

theorem Declaring.blockScope?_parallel {scope : ScopeId} (hscope : scope ≠ .global)
    {brace brace' : Token} (hbrace : R brace brace') :
    Parallel R D (fun a b => a = b ∧ ∀ inner, a = some inner → inner ≠ .global)
      (blockScope? scope (Stmt.blockScopeName brace))
      (blockScope? scope (Stmt.blockScopeName brace')) := by
  have hnames := ScopeNames.block hscope hbrace
  refine (addSubScope?_parallel hR hnames).bind ?_
  rintro inner? _ ⟨rfl, hinner⟩
  cases inner? with
  | none => exact fun _ _ ht => .pure ⟨⟨ht.opened hnames, fun _ => ht.inner⟩, ht⟩
  | some inner => exact .pure ⟨rfl, hinner⟩

end

/-! ## Statements -/

section
variable (hR : Token.Pairing R) (types : TypeTable)

theorem Stmt.Alike.declareAll {scope : ScopeId} {loops : ℕ} {ss ss' : List Stmt}
    (h : List.Forall₂ (fun s s' =>
      Parallel R D (Stmt.Alike R) (s.declare types scope loops) (s'.declare types scope loops))
      ss ss') :
    Parallel R D (List.Forall₂ (Stmt.Alike R)) (declare.declareAll types scope loops ss)
      (declare.declareAll types scope loops ss') := by
  induction h with
  | nil => exact .pure .nil
  | cons hs _ ih => exact hs.bind fun _ _ hs => ih.bind_pure fun _ _ hss => .cons hs hss

include hR in
theorem Stmt.Alike.declare {s s' : Stmt} (h : s.Alike R s') {scope : ScopeId}
    (hscope : scope ≠ .global) (loops : ℕ)
    (hnames : ∀ n n', R n n' → s.Declares n → s'.Declares n' → D n n') :
    Parallel R D (Stmt.Alike R) (s.declare types scope loops) (s'.declare types scope loops) := by
  have hoptional := @Expr.Alike.typeOptional R types
  induction h using Stmt.Alike.induction generalizing scope loops with
  | empty hp => exact .pure (.empty hp)
  | breakLoop hp =>
      unfold Stmt.declare
      split_ifs
      · exact .report_bind hp rfl (.pure (.breakLoop hp))
      · exact .pure (.breakLoop hp)
  | whileLoop hc _ hp ih =>
      have hbody := ih hscope (loops + 1) fun n n' hn h h' =>
        hnames n n' hn (.whileLoop h) (.whileLoop h')
      exact hbody.bind_pure fun _ _ hs => .whileLoop (hc.typeLiterals types) hs hp
  | ifThen hc _ hp ih =>
      have hthen := ih hscope loops fun n n' hn h h' => hnames n n' hn (.ifThen h) (.ifThen h')
      exact hthen.bind_pure fun _ _ hs => .ifThen (hc.typeLiterals types) hs hp
  | ifThenElse hc _ _ hp ihs ihu =>
      have hthen := ihs hscope loops fun n n' hn h h' =>
        hnames n n' hn (.thenBranch h) (.thenBranch h')
      have helse := ihu hscope loops fun n n' hn h h' =>
        hnames n n' hn (.elseBranch h) (.elseBranch h')
      exact hthen.bind fun _ _ hs => helse.bind_pure fun _ _ hu =>
        .ifThenElse (hc.typeLiterals types) hs hu hp
  | block hss hp ih =>
      unfold Stmt.declare
      refine (Declaring.blockScope?_parallel hR hscope hp).bind ?_
      rintro inner? _ ⟨rfl, hinner⟩
      cases inner? with
      | none => exact .pure (.block hss hp)
      | some inner =>
          refine (declareAll types (forall₂_of_mem ih ?_)).bind_pure fun _ _ hss => .block hss hp
          rintro s hs s' hs' ⟨_, hdeclare⟩
          exact hdeclare (hinner inner rfl) loops fun n n' hn h h' =>
            hnames n n' hn (.block hs h) (.block hs' h')
  | assign hi he => exact .pure (.assign hi (he.typeLiterals types))
  | returnValue he hp => exact .pure (.returnValue (hoptional he) hp)
  | varDecl hx hp he =>
      unfold Stmt.declare
      have hname := hnames _ _ hp .varDecl .varDecl
      refine (Declaring.newVariable?_parallel hR types scope _ hx hp hname).bind fun _ _ h => ?_
      cases h with
      | none => exact .pure (.varDecl hx hp he)
      | @some a b hab =>
          obtain ⟨x, symbol?⟩ := a
          obtain ⟨x', _⟩ := b
          obtain ⟨hx, rfl⟩ : x.Alike R x' ∧ symbol? = _ := hab
          exact .pure (.varDecl hx hp (hoptional he))
  | call hi has hp =>
      have hargs := has.imp fun _ _ he => Expr.Alike.typeLiterals types he
      exact .pure (.call hi (Expr.Alike.typeAll types hargs) hp)

end

/-! ## Definitions -/

section
variable {f f' : FnDef} {g g' : Global} (hR : Token.Pairing R) (types : TypeTable)
include hR

omit hR in
/-- What a function declares does not depend on its type and its symbol. -/
theorem Global.Declares.of_header {returnType : TypeName} {symbol? : Option SymbolId} {n : Token}
    (h : Declares n (.function { f with returnType, symbol? })) : Declares n (.function f) := by
  cases h with
  | function hn => exact .function hn
  | param hp hn => exact .param hp hn
  | body hs hd => exact .body hs hd

theorem Param.Alike.declare {p p' : Param} (h : p.Alike R p') (hname : D p.name p'.name)
    (scope : ScopeId) (function : String) :
    Parallel R D (fun a b => a.1.Alike R b.1 ∧ a.2 = b.2)
      (FnDef.declareParam types scope function p) (FnDef.declareParam types scope function p') := by
  have htext := hR.text_eq h.name
  unfold FnDef.declareParam
  refine (Parallel.lift (h.type.resolveStorage hR types)).bind ?_
  rintro type? _ rfl
  cases type? with
  | none => exact .pure ⟨h, rfl⟩
  | some type =>
      have htype : TypeName.Alike R { p.type with resolved? := some type }
          { p'.type with resolved? := some type } := { h.type with resolved := rfl }
      refine (Declaring.newSymbol?_parallel scope _ hname htext _).bind ?_
      rintro id? _ rfl
      dsimp only
      rw [htext]
      cases id? with
      | none => exact .report_bind h.name rfl (.pure ⟨{ h with type := htype }, rfl⟩)
      | some id => exact .pure ⟨⟨htype, h.name, rfl⟩, rfl⟩

theorem FnDef.Alike.declareParams {ps ps' : List Param}
    (h : List.Forall₂ (fun p p' => p.Alike R p' ∧ D p.name p'.name) ps ps') (scope : ScopeId)
    (function : String) :
    Parallel R D (fun a b => List.Forall₂ (Param.Alike R) a.1 b.1 ∧ a.2 = b.2)
      (FnDef.declareParams types scope function ps)
      (FnDef.declareParams types scope function ps') := by
  induction h with
  | nil => exact .pure ⟨.nil, rfl⟩
  | cons hp _ ih =>
      unfold FnDef.declareParams
      refine (hp.1.declare hR types hp.2 scope function).bind ?_
      rintro ⟨p, entry?⟩ ⟨p', _⟩ ⟨hp, rfl⟩
      refine ih.bind ?_
      rintro ⟨ps, entries⟩ ⟨ps', _⟩ ⟨hps, rfl⟩
      exact .pure ⟨.cons hp hps, rfl⟩

theorem FnDef.Alike.declareInside (h : f.Alike R f')
    (hnames : ∀ n n', R n n' → Global.Declares n (.function f) → Global.Declares n' (.function f') →
      D n n')
    {scope : ScopeId} (hscope : scope ≠ .global) (symbol : SymbolId) (returnType? : Option TypeId) :
    Parallel R D (FnDef.Alike R) (f.declareInside types scope symbol returnType?)
      (f'.declareInside types scope symbol returnType?) := by
  have hname := hnames _ _ h.name (.function rfl) (.function rfl)
  have htext := hR.text_eq h.name
  have hparams := forall₂_of_mem h.params fun p hp p' hp' h =>
    And.intro h (hnames _ _ h.name (.param hp rfl) (.param hp' rfl))
  unfold FnDef.declareInside
  rw [htext]
  have hresult : Symbol.Alike D
      { name := Symbol.returnValueName, kind := .returnValue, declaration := f.name,
        type? := returnType? }
      { name := Symbol.returnValueName, kind := .returnValue, declaration := f'.name,
        type? := returnType? } := ⟨rfl, rfl, hname, nofun, rfl, rfl, rfl⟩
  refine (Declaring.addSymbol?_parallel scope hresult).bind ?_
  rintro id? _ rfl
  refine .report_if h.name rfl ((declareParams hR types hparams scope _).bind ?_)
  rintro ⟨params, signature⟩ ⟨params', _⟩ ⟨hparams, rfl⟩
  refine (Parallel.modify fun _ _ ht => ht.setSignature symbol _ signature).bind fun _ _ _ => ?_
  refine (Declaring.blockScope?_parallel hR hscope h.openBrace).bind ?_
  rintro inner? _ ⟨rfl, hinner⟩
  cases inner? with
  | none => exact .pure { h with params := hparams }
  | some inner =>
      have hbody := Stmt.Alike.declareAll types (forall₂_of_mem h.body fun s hs s' hs' h =>
        h.declare hR types (hinner inner rfl) 0 fun n n' hn hd hd' =>
          hnames n n' hn (.body hs hd) (.body hs' hd'))
      exact hbody.bind_pure fun _ _ hbody => { h with params := hparams, body := hbody }

theorem FnDef.Alike.declare (h : f.Alike R f')
    (hnames : ∀ n n', R n n' → Global.Declares n (.function f) → Global.Declares n' (.function f') →
      D n n') :
    Parallel R D (FnDef.Alike R) (f.declare types) (f'.declare types) := by
  have hname := hnames _ _ h.name (.function rfl) (.function rfl)
  have htext := hR.text_eq h.name
  unfold FnDef.declare
  refine (Parallel.lift (h.returnType.resolve hR types)).bind ?_
  rintro returnType? _ rfl
  have htype : TypeName.Alike R { f.returnType with resolved? := returnType? }
      { f'.returnType with resolved? := returnType? } := { h.returnType with resolved := rfl }
  refine (Declaring.newSymbol?_parallel .global _ hname htext _).bind ?_
  rintro symbol? _ rfl
  dsimp only
  rw [htext]
  cases symbol? with
  | none => exact .report_bind h.name rfl (.pure { h with returnType := htype })
  | some symbol =>
      have hf : FnDef.Alike R
          { f with
            returnType := { f.returnType with resolved? := returnType? }
            symbol? := some symbol }
          { f' with
            returnType := { f'.returnType with resolved? := returnType? }
            symbol? := some symbol } :=
        { h with returnType := htype, symbol := rfl }
      refine (Declaring.addSubScope?_parallel hR .function).bind ?_
      rintro scope? _ ⟨rfl, hne⟩
      cases scope? with
      | none => exact .pure hf
      | some scope =>
          exact hf.declareInside hR types (fun n n' hn hd hd' =>
            hnames n n' hn hd.of_header hd'.of_header) (hne scope rfl) symbol returnType?

theorem GlobalVar.Alike.declare {v v' : GlobalVar} (h : v.Alike R v') (hname : D v.name v'.name) :
    Parallel R D (GlobalVar.Alike R) (v.declare types) (v'.declare types) := by
  unfold GlobalVar.declare
  refine (Declaring.newVariable?_parallel hR types .global _ h.type h.name hname).bind ?_
  intro _ _ hnew
  cases hnew with
  | none => exact .pure h
  | some hab => exact .pure ⟨hab.1, h.name, hab.2⟩

theorem Global.Alike.declare (h : g.Alike R g')
    (hnames : ∀ n n', R n n' → g.Declares n → g'.Declares n' → D n n') :
    Parallel R D (Global.Alike R) (g.declare types) (g'.declare types) := by
  unfold Global.declare
  cases h with
  | function hf =>
      dsimp only
      rw [map_eq_pure_bind, map_eq_pure_bind]
      exact (hf.declare hR types hnames).bind_pure fun _ _ hf => .function hf
  | var hv =>
      dsimp only
      rw [map_eq_pure_bind, map_eq_pure_bind]
      have hname := hnames _ _ hv.name (.var rfl) (.var rfl)
      exact (hv.declare hR types hname).bind_pure fun _ _ hv => .var hv

omit hR in
theorem Global.Alike.declareAll {gs gs' : List Global}
    (h : List.Forall₂ (fun g g' =>
      Parallel R D (Global.Alike R) (g.declare types) (g'.declare types)) gs gs') :
    Parallel R D (List.Forall₂ (Global.Alike R)) (Global.declareAll types gs)
      (Global.declareAll types gs') := by
  induction h with
  | nil => exact .pure .nil
  | cons hg _ ih => exact hg.bind fun _ _ hg => ih.bind_pure fun _ _ hgs => .cons hg hgs

theorem Program.Alike.declare {p p' : Program} (h : p.Alike R p')
    (hnames : ∀ n n', R n n' → p.Declares n → p'.Declares n' → D n n') :
    Parallel R D (Program.Alike R) (p.declare types) (p'.declare types) := by
  have hall := Global.Alike.declareAll types (forall₂_of_mem h fun g hg g' hg' h =>
    h.declare hR types fun n n' hn hd hd' => hnames n n' hn ⟨g, hg, hd⟩ ⟨g', hg', hd'⟩)
  exact hall.bind_pure fun _ _ hgs => hgs

end

end ScriptFront
