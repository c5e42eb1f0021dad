import ScriptFront.Proofs.Typing.Declared

/-!
# What the first analysis leaves of a program

A clean run through a function has declared its result in its own scope, given
all its parameters types, and declared its body in a scope inside. From the empty
table on, every definition of a program is left like this in the end.
-/
namespace ScriptFront

variable {types : TypeTable} {t u : SymbolTable} {result : TypeId} {scope : ScopeId}

/-- The parameter that is left of a parameter: its type is resolved. -/
inductive Param.Declared (types : TypeTable) (p : Param) : Param → Prop
  | intro {type : TypeId} {id : SymbolId} : types.get? p.type.fullName = some type →
      Declared types p { p with
        type := { p.type with resolved? := some type }, symbol? := some id }

/-- The definition that is left of the function `f`. Its scope lies in the global
scope, and the scope of its body lies in that. -/
inductive FnDef.Declared (types : TypeTable) (t : SymbolTable) (f : FnDef) : FnDef → Prop
  | intro {result : TypeId} {outer inner : ScopeId} {id : SymbolId} {params : List Param}
      {body : List Stmt} :
      types.get? f.returnType.fullName = some result →
      t.subScope? .global f.name.text = some outer →
      t.subScope? outer (Stmt.blockScopeName f.openBrace) = some inner →
      t.Returns result inner → List.Forall₂ (Param.Declared types) f.params params →
      Stmt.AllDeclared types t result inner f.body body →
      Declared types t f { f with
        returnType := { f.returnType with resolved? := some result }, params, body,
        symbol? := some id }

inductive Global.Declared (types : TypeTable) (t : SymbolTable) : Global → Global → Prop
  | function {f f' : FnDef} :
      f.Declared types t f' → Declared types t (.function f) (.function f')
  | var {v : GlobalVar} {resolved : TypeId} {id : SymbolId} :
      types.get? v.type.fullName = some resolved →
      Declared types t (.var v) (.var { v with
        type := { v.type with resolved? := some resolved }, symbol? := some id })

/-- The definition declares the name, itself or inside of it. -/
inductive Global.Declares (name : Token) : Global → Prop
  | function {f : FnDef} : f.name = name → Declares name (.function f)
  | param {f : FnDef} {p : Param} : p ∈ f.params → p.name = name → Declares name (.function f)
  | body {f : FnDef} {s : Stmt} : s ∈ f.body → s.Declares name → Declares name (.function f)
  | var {v : GlobalVar} : v.name = name → Declares name (.var v)

def Program.Declares (p : Program) (name : Token) : Prop := ∃ g ∈ p.globals, g.Declares name

theorem Global.Declared.grow {g g' : Global} (h : g.Declared types t g') (hu : t.Grows u) :
    g.Declared types u g' := by
  cases h with
  | function hf =>
      apply Global.Declared.function
      cases hf with
      | intro htype houter hinner hreturns hparams hbody =>
          apply FnDef.Declared.intro htype (hu.opened houter) (hu.opened hinner)
            (hu.returns hreturns) hparams
          exact hbody.grow fun _ _ => Stmt.Declared.grow hu
  | var htype => exact .var htype

/-! ## Parameters -/

/-- What a clean run from `t` leaves of parameters: a signature with all types. -/
def FnDef.Signed (t : SymbolTable) (signature : List FnDef.SignatureEntry)
    (u : SymbolTable) : Prop :=
  t.Grows u ∧ u.Valid ∧ ∃ types : List TypeId, signature.map Prod.snd = types.map some

theorem FnDef.declareParam_leads {function : String} {p : Param} (ht : t.Valid)
    (hname : p.name.text ≠ Symbol.returnValueName) :
    (declareParam types scope function p).Leads t fun r u =>
      p.Declared types r.1 ∧ ∃ entry, r.2 = some entry ∧ Signed t [entry] u := by
  unfold declareParam
  apply Declaring.Leads.bind
  apply Declaring.Leads.ofExcept
  intro type hresolved
  refine Declaring.Leads.seq (Declaring.newSymbol?_leads _ p.name _) ?_
  rintro _ u (⟨rfl, -⟩ | ⟨id, rfl, hadds⟩)
  · exact .bind .report
  · apply Declaring.Leads.pure
    obtain ⟨hgrow, hvalid⟩ := ht.adds_named hadds ⟨type, rfl⟩ rfl nofun hname
    exact ⟨.intro (TypeTable.get?_of_resolveStorage hresolved), _, rfl, hgrow, hvalid, [type], rfl⟩

theorem FnDef.declareParams_leads {function : String} {ps : List Param} (ht : t.Valid)
    (hnames : ∀ p ∈ ps, p.name.text ≠ Symbol.returnValueName) :
    (declareParams types scope function ps).Leads t fun r u =>
      List.Forall₂ (Param.Declared types) ps r.1 ∧ Signed t r.2 u := by
  induction ps generalizing t with
  | nil => exact .pure ⟨.nil, .refl t, ht, [], rfl⟩
  | cons p ps ih =>
      unfold declareParams
      refine Declaring.Leads.seq (declareParam_leads ht (hnames p (by simp))) ?_
      rintro ⟨p', _⟩ u ⟨hp, entry, rfl, hgrow, hvalid, type, htype⟩
      refine Declaring.Leads.seq (ih hvalid fun p hp => hnames p (by simp [hp])) ?_
      rintro ⟨ps', signature⟩ v ⟨hps, hgrow', hvalid', signed, hsigned⟩
      apply Declaring.Leads.pure
      refine ⟨.cons hp hps, hgrow.trans hgrow', hvalid', type ++ signed, ?_⟩
      simp only [Option.toList_some, List.map_append, htype, hsigned]

/-! ## Functions -/

theorem FnDef.declareInside_leads {f : FnDef} {id : SymbolId} {symbol : Symbol}
    (hgrow : t.Grows u) (hu : u.Valid) (hnew : ¬ t.Known scope)
    (hscope : u.subScope? .global f.name.text = some scope)
    (hsymbol : u.symbol? id = some symbol) (htype : symbol.type? = some result)
    (hparams : ∀ p ∈ f.params, p.name.text ≠ Symbol.returnValueName)
    (hnames : ∀ s ∈ f.body, ∀ name, s.Declares name → name.text ≠ Symbol.returnValueName) :
    (f.declareInside types scope id (some result)).Leads u fun f' v => t.Grows v ∧ v.Valid ∧
      ∃ inner params body, f' = { f with params, body } ∧
        v.subScope? .global f.name.text = some scope ∧
        v.subScope? scope (Stmt.blockScopeName f.openBrace) = some inner ∧
        v.Returns result inner ∧ List.Forall₂ (Param.Declared types) f.params params ∧
        Stmt.AllDeclared types v result inner f.body body := by
  have hparent := (hu.child hscope).2.1
  have hroot := hu.child_ne_global hscope
  unfold declareInside
  apply Declaring.Leads.bind
  apply Declaring.Leads.add?
  case hnone =>
    intro _
    exact .bind .report
  intro entry u₁ hadd
  have hadds := SymbolTable.adds_of_addSymbol? hadd
  have hgrow₁ := hgrow.adds hadds fun _ => hnew
  have hvalid₁ := hu.adds hadds ⟨result, rfl⟩ rfl nofun fun _ => hparent
  have hreturns₁ : u₁.Returns result scope := .own hadds.declared hadds.entry rfl
  refine Declaring.Leads.seq (declareParams_leads hvalid₁ hparams) ?_
  rintro ⟨params, signature⟩ u₂ ⟨hparams₂, hgrow₂, hvalid₂, hsigned⟩
  obtain ⟨symbol₂, hsymbol₂, htype₂⟩ := hgrow₂.type (hadds.symbol?_of hsymbol)
  apply Declaring.Leads.bind
  apply Declaring.Leads.modify
  have hgrow₃ := hgrow₂.signature hsymbol₂ (htype₂.trans htype) signature
  have hvalid₃ : (u₂.setSignature id (some result) signature).Valid :=
    hvalid₂.signature ⟨result, rfl⟩ hsigned
  have hreturns₃ := hgrow₃.returns hreturns₁
  refine Declaring.Leads.seq (Declaring.blockScope?_leads hvalid₃ hreturns₃.known hroot _) ?_
  rintro _ u₄ ⟨inner, rfl, hgrow₄, hvalid₄, hinner⟩
  have hreturns₄ := hvalid₄.returns_inner (hgrow₄.returns hreturns₃) hroot hinner
  have hbelow := hvalid₄.child_ne_global hinner
  refine Declaring.Leads.seq (Stmt.declareAll_leads hvalid₄ hreturns₄ fun s hs _ ht hr =>
    Stmt.declare_leads ht hr hbelow (hnames s hs)) ?_
  rintro body u₅ ⟨hgrow₅, hvalid₅, hbody⟩
  have hgrown := (hgrow₃.trans hgrow₄).trans hgrow₅
  apply Declaring.Leads.pure
  refine ⟨hgrow₁.trans hgrown, hvalid₅, inner, params, body, rfl, ?_, hgrow₅.opened hinner,
    hgrow₅.returns hreturns₄, hparams₂, hbody⟩
  exact hgrown.opened ((hadds.sub_eq _ _).trans hscope)

theorem FnDef.declare_leads {f : FnDef} (ht : t.Valid)
    (hnames : ∀ name, Global.Declares name (.function f) →
      name.text ≠ Symbol.returnValueName) :
    (f.declare types).Leads t fun f' u =>
      t.Grows u ∧ u.Valid ∧ f.Declared types u f' := by
  unfold declare
  apply Declaring.Leads.bind
  apply Declaring.Leads.ofExcept
  intro result hresult
  refine Declaring.Leads.seq (Declaring.newSymbol?_leads _ f.name _) ?_
  rintro _ u₁ (⟨rfl, -⟩ | ⟨id, rfl, hadds⟩)
  · exact .bind .report
  have hfree : f.name.text ≠ Symbol.returnValueName := hnames _ (.function rfl)
  obtain ⟨hgrow₁, hvalid₁⟩ := ht.adds_named hadds ⟨result, rfl⟩ rfl nofun hfree
  apply Declaring.Leads.bind
  apply Declaring.Leads.add?
  case hnone =>
    -- A scope of this name would belong to a symbol of this name.
    intro (hnone : u₁.addSubScope? .global f.name.text = none)
    obtain ⟨inner, hinner⟩ := hvalid₁.root.addSubScope? hnone
    rw [hadds.sub_eq] at hinner
    obtain ⟨other, hother⟩ := ht.function hinner
    have := hother.symm.trans hadds.free
    cases this
  intro outer u₂ hadd
  have hopens : u₁.Opens .global f.name.text outer u₂ := SymbolTable.opens_of_addSubScope? hadd
  have hnew : ¬ t.Known outer := by
    unfold SymbolTable.Known
    rw [hopens.fresh, hadds.size]
    exact Nat.lt_irrefl _
  have hsymbol := (hopens.symbol_eq id).trans hadds.entry
  have hgrow₂ := hgrow₁.opens hopens
  have hvalid₂ := hvalid₁.opens hopens fun _ => ⟨id, hadds.declared⟩
  refine (declareInside_leads (f := { f with
    returnType := { f.returnType with resolved? := some result }, symbol? := some id })
    hgrow₂ hvalid₂ hnew hopens.opened hsymbol rfl (fun p hp => hnames _ (.param hp rfl))
    fun s hs n hn => hnames n (.body hs hn)).mono ?_
  rintro _ v ⟨hgrow, hvalid, inner, params, body, rfl, houter', hinner, hreturns, hparams, hbody⟩
  exact ⟨hgrow, hvalid,
    .intro (TypeTable.get?_of_resolve hresult) houter' hinner hreturns hparams hbody⟩

/-! ## Programs -/

theorem Global.declare_leads {g : Global} (ht : t.Valid)
    (hnames : ∀ name, g.Declares name → name.text ≠ Symbol.returnValueName) :
    (g.declare types).Leads t fun g' u => t.Grows u ∧ u.Valid ∧ g.Declared types u g' := by
  cases g with
  | function f =>
      unfold declare
      dsimp only
      rw [map_eq_pure_bind]
      refine Declaring.Leads.seq (FnDef.declare_leads ht hnames) ?_
      rintro f' u ⟨hgrow, hvalid, hf⟩
      exact .pure ⟨hgrow, hvalid, .function hf⟩
  | var v =>
      unfold declare GlobalVar.declare
      dsimp only
      rw [map_eq_pure_bind]
      apply Declaring.Leads.bind
      refine Declaring.Leads.seq (Declaring.newVariable?_leads _ v.type v.name) ?_
      rintro _ u ⟨resolved, id, rfl, htype, hadds⟩
      have hfree : v.name.text ≠ Symbol.returnValueName := hnames _ (.var rfl)
      apply Declaring.Leads.pure
      apply Declaring.Leads.pure
      obtain ⟨hgrow, hvalid⟩ := ht.adds_named hadds ⟨resolved, rfl⟩ rfl nofun hfree
      exact ⟨hgrow, hvalid, .var htype⟩

theorem Global.declareAll_leads {gs : List Global} (ht : t.Valid)
    (hnames : ∀ g ∈ gs, ∀ name, g.Declares name → name.text ≠ Symbol.returnValueName) :
    (declareAll types gs).Leads t fun gs' u =>
      t.Grows u ∧ u.Valid ∧ List.Forall₂ (Global.Declared types u) gs gs' := by
  induction gs generalizing t with
  | nil => exact .pure ⟨.refl t, ht, .nil⟩
  | cons g gs ih =>
      unfold declareAll
      refine Declaring.Leads.seq (declare_leads ht (hnames g (by simp))) ?_
      rintro g' u ⟨hgrow, hvalid, hg⟩
      refine Declaring.Leads.seq (ih hvalid fun g hg => hnames g (by simp [hg])) ?_
      rintro gs' v ⟨hgrow', hvalid', hgs⟩
      exact .pure ⟨hgrow.trans hgrow', hvalid', .cons (hg.grow hgrow') hgs⟩

/-- A clean run through a program leaves all of it declared, in a table where no
declaration is missing. -/
theorem Program.declare_leads {p : Program}
    (hnames : ∀ g ∈ p.globals, ∀ name, g.Declares name →
      name.text ≠ Symbol.returnValueName) :
    (p.declare types).Leads .empty fun p' u =>
      u.Complete ∧ List.Forall₂ (Global.Declared types u) p.globals p'.globals := by
  unfold declare
  refine Declaring.Leads.seq (Global.declareAll_leads SymbolTable.valid_empty hnames) ?_
  rintro gs u ⟨-, hvalid, hgs⟩
  exact .pure ⟨hvalid.toComplete, hgs⟩

end ScriptFront
