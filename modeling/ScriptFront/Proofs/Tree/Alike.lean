import Mathlib.Data.List.Forall2
import ScriptFront.Program.Cleanup
import ScriptFront.Proofs.Tree.Induction
import ScriptFront.Proofs.Tree.Tokens

/-!
# Trees that are alike

Two trees are alike if they differ in their tokens only, and the tokens in one place
are related. The relation is any relation on tokens; where it says that two tokens
have the same word, alike trees say the same. Cleanup keeps trees alike, for it looks
at no token.
-/
namespace ScriptFront

section
variable (R : Token → Token → Prop)

/-- Names in use with related tokens. -/
structure Ident.Alike (i j : Ident) : Prop where
  token : R i.token j.token
  type : i.type? = j.type?
  symbol : i.symbol? = j.symbol?

/-- Expressions with related tokens. -/
inductive Expr.Alike : Expr → Expr → Prop
  | literal {value : Literal} {t t' : Token} {type? : Option TypeId} :
      R t t' → Alike (.literal value t type?) (.literal value t' type?)
  | ident {i j : Ident} : i.Alike R j → Alike (.ident i) (.ident j)
  | unary {op : UnaryOp} {a a' : Expr} {t t' : Token} {type? : Option TypeId} :
      Alike a a' → R t t' → Alike (.unary op a t type?) (.unary op a' t' type?)
  | binary {op : BinaryOp} {a b a' b' : Expr} {t t' : Token} {type? : Option TypeId} :
      Alike a a' → Alike b b' → R t t' →
      Alike (.binary op a b t type?) (.binary op a' b' t' type?)
  | call {i j : Ident} {as as' : List Expr} {t t' : Token} {type? : Option TypeId} :
      i.Alike R j → List.Forall₂ Alike as as' → R t t' →
      Alike (.call i as t type?) (.call j as' t' type?)

structure TypeName.Alike (x y : TypeName) : Prop where
  token : R x.token y.token
  isArray : x.isArray = y.isArray
  resolved : x.resolved? = y.resolved?

inductive Stmt.Alike : Stmt → Stmt → Prop
  | empty {t t' : Token} : R t t' → Alike (.empty t) (.empty t')
  | breakLoop {t t' : Token} : R t t' → Alike (.breakLoop t) (.breakLoop t')
  | whileLoop {c c' : Expr} {s s' : Stmt} {t t' : Token} :
      c.Alike R c' → Alike s s' → R t t' → Alike (.whileLoop c s t) (.whileLoop c' s' t')
  | ifThen {c c' : Expr} {s s' : Stmt} {t t' : Token} :
      c.Alike R c' → Alike s s' → R t t' → Alike (.ifThen c s t) (.ifThen c' s' t')
  | ifThenElse {c c' : Expr} {s u s' u' : Stmt} {t t' : Token} :
      c.Alike R c' → Alike s s' → Alike u u' → R t t' →
      Alike (.ifThenElse c s u t) (.ifThenElse c' s' u' t')
  | block {ss ss' : List Stmt} {t t' : Token} :
      List.Forall₂ Alike ss ss' → R t t' → Alike (.block ss t) (.block ss' t')
  | assign {i j : Ident} {e e' : Expr} :
      i.Alike R j → e.Alike R e' → Alike (.assign i e) (.assign j e')
  | returnValue {e? e?' : Option Expr} {t t' : Token} :
      Option.Rel (Expr.Alike R) e? e?' → R t t' →
      Alike (.returnValue e? t) (.returnValue e?' t')
  | varDecl {x x' : TypeName} {t t' : Token} {e? e?' : Option Expr}
      {symbol? : Option SymbolId} :
      x.Alike R x' → R t t' → Option.Rel (Expr.Alike R) e? e?' →
      Alike (.varDecl x t e? symbol?) (.varDecl x' t' e?' symbol?)
  | call {i j : Ident} {as as' : List Expr} {t t' : Token} :
      i.Alike R j → List.Forall₂ (Expr.Alike R) as as' → R t t' →
      Alike (.call i as t) (.call j as' t')

structure Param.Alike (p q : Param) : Prop where
  type : p.type.Alike R q.type
  name : R p.name q.name
  symbol : p.symbol? = q.symbol?

structure FnDef.Alike (f g : FnDef) : Prop where
  returnType : f.returnType.Alike R g.returnType
  name : R f.name g.name
  params : List.Forall₂ (Param.Alike R) f.params g.params
  openParen : R f.openParen g.openParen
  body : List.Forall₂ (Stmt.Alike R) f.body g.body
  openBrace : R f.openBrace g.openBrace
  symbol : f.symbol? = g.symbol?

structure GlobalVar.Alike (v w : GlobalVar) : Prop where
  type : v.type.Alike R w.type
  name : R v.name w.name
  symbol : v.symbol? = w.symbol?

inductive Global.Alike : Global → Global → Prop
  | function {f g : FnDef} : f.Alike R g → Alike (.function f) (.function g)
  | var {v w : GlobalVar} : v.Alike R w → Alike (.var v) (.var w)

def Program.Alike (p q : Program) : Prop :=
  List.Forall₂ (Global.Alike R) p.globals q.globals

end

variable {R : Token → Token → Prop}

/-! ## Induction -/

theorem forall₂_of_mem {α β : Type} {S T : α → β → Prop} {as : List α} {bs : List β}
    (h : List.Forall₂ S as bs) (hmem : ∀ a ∈ as, ∀ b ∈ bs, S a b → T a b) :
    List.Forall₂ T as bs := by
  induction h with
  | nil => exact .nil
  | cons hab _ ih =>
      refine .cons (hmem _ (by simp) _ (by simp) hab) (ih fun a ha b hb => ?_)
      exact hmem a (List.mem_cons_of_mem _ ha) b (List.mem_cons_of_mem _ hb)

theorem exists_of_mem_forall₂ {α β : Type} {S : α → β → Prop} {as : List α} {bs : List β}
    (h : List.Forall₂ S as bs) {b : β} (hb : b ∈ bs) : ∃ a ∈ as, S a b := by
  induction h with
  | nil => cases hb
  | cons hab _ ih =>
      rcases List.mem_cons.mp hb with rfl | hb
      · exact ⟨_, by simp, hab⟩
      · obtain ⟨a, ha, hab⟩ := ih hb
        exact ⟨a, List.mem_cons_of_mem _ ha, hab⟩

/-- What holds of alike expressions if it holds of their parts holds of all. -/
@[elab_as_elim]
theorem Expr.Alike.induction {P : ∀ {e e' : Expr}, e.Alike R e' → Prop}
    (literal : ∀ {value t t' type?} (ht : R t t'), P (@Expr.Alike.literal R value t t' type? ht))
    (ident : ∀ {i j} (hi : Ident.Alike R i j), P (.ident hi))
    (unary : ∀ {op a a' t t' type?} (ha : Expr.Alike R a a') (ht : R t t'), P ha →
      P (@Expr.Alike.unary R op a a' t t' type? ha ht))
    (binary : ∀ {op a b a' b' t t' type?} (ha : Expr.Alike R a a') (hb : Expr.Alike R b b')
      (ht : R t t'), P ha → P hb → P (@Expr.Alike.binary R op a b a' b' t t' type? ha hb ht))
    (call : ∀ {i j as as' t t' type?} (hi : Ident.Alike R i j)
      (has : List.Forall₂ (Expr.Alike R) as as') (ht : R t t'),
      List.Forall₂ (fun a a' => ∃ ha : Expr.Alike R a a', P ha) as as' →
      P (@Expr.Alike.call R i j as as' t t' type? hi has ht))
    {e e' : Expr} (h : e.Alike R e') : P h := by
  induction e using Expr.tree_induction generalizing e' with
  | literal value t type? =>
      cases h with
      | literal ht => exact literal ht
  | ident i =>
      cases h with
      | ident hi => exact ident hi
  | unary op a t type? ih =>
      cases h with
      | unary ha ht => exact unary ha ht (ih ha)
  | binary op a b t type? iha ihb =>
      cases h with
      | binary ha hb ht => exact binary ha hb ht (iha ha) (ihb hb)
  | call i as t type? ih =>
      cases h with
      | call hi has ht =>
          exact call hi has ht (forall₂_of_mem has fun a ha _ _ hb => ⟨hb, ih a ha hb⟩)

/-- What holds of alike statements if it holds of the statements in them holds of
all. -/
@[elab_as_elim]
theorem Stmt.Alike.induction {P : ∀ {s s' : Stmt}, s.Alike R s' → Prop}
    (empty : ∀ {t t'} (ht : R t t'), P (.empty ht))
    (breakLoop : ∀ {t t'} (ht : R t t'), P (.breakLoop ht))
    (whileLoop : ∀ {c c' s s' t t'} (hc : Expr.Alike R c c') (hs : Stmt.Alike R s s')
      (ht : R t t'), P hs → P (.whileLoop hc hs ht))
    (ifThen : ∀ {c c' s s' t t'} (hc : Expr.Alike R c c') (hs : Stmt.Alike R s s')
      (ht : R t t'), P hs → P (.ifThen hc hs ht))
    (ifThenElse : ∀ {c c' s u s' u' t t'} (hc : Expr.Alike R c c') (hs : Stmt.Alike R s s')
      (hu : Stmt.Alike R u u') (ht : R t t'), P hs → P hu → P (.ifThenElse hc hs hu ht))
    (block : ∀ {ss ss' t t'} (hss : List.Forall₂ (Stmt.Alike R) ss ss') (ht : R t t'),
      List.Forall₂ (fun s s' => ∃ hs : Stmt.Alike R s s', P hs) ss ss' → P (.block hss ht))
    (assign : ∀ {i j e e'} (hi : Ident.Alike R i j) (he : Expr.Alike R e e'), P (.assign hi he))
    (returnValue : ∀ {e? e?' t t'} (he : Option.Rel (Expr.Alike R) e? e?') (ht : R t t'),
      P (.returnValue he ht))
    (varDecl : ∀ {x x' t t' e? e?' symbol?} (hx : TypeName.Alike R x x') (ht : R t t')
      (he : Option.Rel (Expr.Alike R) e? e?'),
      P (@Stmt.Alike.varDecl R x x' t t' e? e?' symbol? hx ht he))
    (call : ∀ {i j as as' t t'} (hi : Ident.Alike R i j)
      (has : List.Forall₂ (Expr.Alike R) as as') (ht : R t t'), P (.call hi has ht))
    {s s' : Stmt} (h : s.Alike R s') : P h := by
  induction s using Stmt.tree_induction generalizing s' with
  | empty t =>
      cases h with
      | empty ht => exact empty ht
  | breakLoop t =>
      cases h with
      | breakLoop ht => exact breakLoop ht
  | whileLoop c s t ih =>
      cases h with
      | whileLoop hc hs ht => exact whileLoop hc hs ht (ih hs)
  | ifThen c s t ih =>
      cases h with
      | ifThen hc hs ht => exact ifThen hc hs ht (ih hs)
  | ifThenElse c s u t ihs ihu =>
      cases h with
      | ifThenElse hc hs hu ht => exact ifThenElse hc hs hu ht (ihs hs) (ihu hu)
  | block ss t ih =>
      cases h with
      | block hss ht =>
          exact block hss ht (forall₂_of_mem hss fun s hs _ _ hs' => ⟨hs', ih s hs hs'⟩)
  | assign i e =>
      cases h with
      | assign hi he => exact assign hi he
  | returnValue e? t =>
      cases h with
      | returnValue he ht => exact returnValue he ht
  | varDecl x t e? symbol? =>
      cases h with
      | varDecl hx ht he => exact varDecl hx ht he
  | call i as t =>
      cases h with
      | call hi has ht => exact call hi has ht

/-! ## Equal trees -/

theorem map_eq_of_forall₂ {α β γ : Type} {S : α → β → Prop} {f : α → γ} {g : β → γ}
    (hg : ∀ a b, S a b → f a = g b) {as : List α} {bs : List β} (h : List.Forall₂ S as bs) :
    as.map f = bs.map g := by
  rw [← List.forall₂_eq_eq_eq, List.forall₂_map_left_iff, List.forall₂_map_right_iff]
  exact h.imp hg

theorem map_eq_of_rel {α : Type} {S : α → α → Prop} {g : α → α}
    (hg : ∀ a b, S a b → g a = g b) {a? b? : Option α} (h : Option.Rel S a? b?) :
    a?.map g = b?.map g := by
  cases h with
  | none => rfl
  | some hab => rw [Option.map_some, Option.map_some, hg _ _ hab]

/-! A function that takes related tokens to one token takes alike trees to one tree. -/

section
variable {f : Token → Token} (hf : ∀ s t, R s t → f s = f t)
include hf

theorem Ident.Alike.mapToken_eq {i j : Ident} (h : i.Alike R j) : i.mapToken f = j.mapToken f := by
  rw [Ident.mapToken, Ident.mapToken, hf _ _ h.token, h.type, h.symbol]

theorem TypeName.Alike.mapToken_eq {x y : TypeName} (h : x.Alike R y) :
    x.mapToken f = y.mapToken f := by
  rw [TypeName.mapToken, TypeName.mapToken, hf _ _ h.token, h.isArray, h.resolved]

theorem Expr.Alike.mapTokens_eq {e e' : Expr} (h : e.Alike R e') :
    e.mapTokens f f = e'.mapTokens f f := by
  induction h using Expr.Alike.induction with
  | literal ht => simp only [mapTokens, hf _ _ ht]
  | ident hi => simp only [mapTokens, hi.mapToken_eq hf]
  | unary _ ht iha => simp only [mapTokens, hf _ _ ht, iha]
  | binary _ _ ht iha ihb => simp only [mapTokens, hf _ _ ht, iha, ihb]
  | call hi _ ht ih =>
      simp only [mapTokens, mapAll_eq, hf _ _ ht, hi.mapToken_eq hf,
        map_eq_of_forall₂ (fun _ _ ⟨_, ha⟩ => ha) ih]

theorem Stmt.Alike.mapTokens_eq {s s' : Stmt} (h : s.Alike R s') :
    s.mapTokens f f = s'.mapTokens f f := by
  have hexpr : ∀ e e', Expr.Alike R e e' → e.mapTokens f f = e'.mapTokens f f :=
    fun _ _ he => he.mapTokens_eq hf
  induction h using Stmt.Alike.induction with
  | empty ht | breakLoop ht => simp only [mapTokens, hf _ _ ht]
  | whileLoop hc _ ht ih | ifThen hc _ ht ih =>
      simp only [mapTokens, hf _ _ ht, hexpr _ _ hc, ih]
  | ifThenElse hc _ _ ht ihs ihu => simp only [mapTokens, hf _ _ ht, hexpr _ _ hc, ihs, ihu]
  | block _ ht ih =>
      simp only [mapTokens, mapAll_eq, hf _ _ ht, map_eq_of_forall₂ (fun _ _ ⟨_, hs⟩ => hs) ih]
  | assign hi he => simp only [mapTokens, hi.mapToken_eq hf, hexpr _ _ he]
  | returnValue he ht => simp only [mapTokens, hf _ _ ht, map_eq_of_rel hexpr he]
  | varDecl hx ht he =>
      simp only [mapTokens, hf _ _ ht, hx.mapToken_eq hf, map_eq_of_rel hexpr he]
  | call hi has ht =>
      simp only [mapTokens, hf _ _ ht, hi.mapToken_eq hf, map_eq_of_forall₂ hexpr has]

theorem Param.Alike.mapTokens_eq {p q : Param} (h : p.Alike R q) :
    p.mapTokens f = q.mapTokens f := by
  rw [Param.mapTokens, Param.mapTokens, h.type.mapToken_eq hf, hf _ _ h.name, h.symbol]

theorem FnDef.Alike.mapTokens_eq {x y : FnDef} (h : x.Alike R y) :
    x.mapTokens f f = y.mapTokens f f := by
  have hparams := map_eq_of_forall₂ (fun _ _ hp => Param.Alike.mapTokens_eq hf hp) h.params
  have hbody := map_eq_of_forall₂ (fun _ _ hs => Stmt.Alike.mapTokens_eq hf hs) h.body
  rw [FnDef.mapTokens, FnDef.mapTokens, h.returnType.mapToken_eq hf, hf _ _ h.name, hparams,
    hf _ _ h.openParen, hbody, hf _ _ h.openBrace, h.symbol]

theorem GlobalVar.Alike.mapTokens_eq {v w : GlobalVar} (h : v.Alike R w) :
    v.mapTokens f = w.mapTokens f := by
  rw [GlobalVar.mapTokens, GlobalVar.mapTokens, h.type.mapToken_eq hf, hf _ _ h.name, h.symbol]

theorem Program.Alike.mapTokens_eq {p q : Program} (h : p.Alike R q) :
    p.mapTokens f f = q.mapTokens f f := by
  refine congrArg Program.mk (map_eq_of_forall₂ (fun x y hxy => ?_) h)
  cases hxy with
  | function hfn => exact congrArg Global.function (hfn.mapTokens_eq hf)
  | var hv => exact congrArg Global.var (hv.mapTokens_eq hf)

end

/-! ## Cleanup -/

namespace Stmt

theorem Alike.isEmpty_eq {s s' : Stmt} (h : s.Alike R s') : s.isEmpty = s'.isEmpty := by
  cases h with
  | block hss => cases hss <;> rfl
  | _ => rfl

theorem forall₂_consUnlessEmpty {s s' : Cleaned Stmt} {rest rest' : Cleaned (List Stmt)}
    (hs : s.value.Alike R s'.value) (hrest : List.Forall₂ (Alike R) rest.value rest'.value) :
    List.Forall₂ (Alike R) (consUnlessEmpty s rest).value (consUnlessEmpty s' rest').value := by
  unfold consUnlessEmpty
  rw [hs.isEmpty_eq]
  split_ifs
  · exact hrest
  · exact .cons hs hrest

theorem forall₂_cleanupList {ss ss' : List Stmt}
    (h : List.Forall₂ (fun s s' => s.cleanup.value.Alike R s'.cleanup.value) ss ss') :
    List.Forall₂ (Alike R) (cleanup.cleanupList ss).value (cleanup.cleanupList ss').value := by
  induction h with
  | nil => exact .nil
  | cons hs _ ih => exact forall₂_consUnlessEmpty hs ih

theorem Alike.cleanup {s s' : Stmt} (h : s.Alike R s') :
    s.cleanup.value.Alike R s'.cleanup.value := by
  induction h using Stmt.Alike.induction with
  | empty ht => exact .empty ht
  | breakLoop ht => exact .breakLoop ht
  | whileLoop hc _ ht ih => exact .whileLoop hc ih ht
  | ifThen hc _ ht ih => exact .ifThen hc ih ht
  | ifThenElse hc _ _ ht ihs ihu => exact .ifThenElse hc ihs ihu ht
  | block _ ht ih => exact .block (forall₂_cleanupList (ih.imp fun _ _ ⟨_, hs⟩ => hs)) ht
  | assign hi he => exact .assign hi he
  | returnValue he ht => exact .returnValue he ht
  | varDecl hx ht he => exact .varDecl hx ht he
  | call hi has ht => exact .call hi has ht

end Stmt

theorem Global.Alike.cleanup {g g' : Global} (h : g.Alike R g') :
    g.cleanup.value.Alike R g'.cleanup.value := by
  cases h with
  | function hf =>
      have hbody := Stmt.forall₂_cleanupList (hf.body.imp fun _ _ hs => hs.cleanup)
      exact .function { hf with body := hbody }
  | var hv => exact .var hv

theorem Program.Alike.cleanup {p p' : Program} (h : p.Alike R p') :
    p.cleanup.value.Alike R p'.cleanup.value := by
  obtain ⟨gs⟩ := p
  obtain ⟨gs'⟩ := p'
  change List.Forall₂ (Global.Alike R) (Global.cleanupAll gs).value (Global.cleanupAll gs').value
  change List.Forall₂ (Global.Alike R) gs gs' at h
  induction h with
  | nil => exact .nil
  | cons hg _ ih => exact .cons hg.cleanup ih

end ScriptFront
