import ScriptFront.Proofs.Typing.Parallel

/-!
# Checks side by side

Against alike symbol tables, alike programs are checked alike. What is inside of a block
is checked in the scope that the tables have for it, under names that come from related
braces.
-/
namespace ScriptFront

open Reported (Parallel)

variable {R D : Token → Token → Prop} {t t' : SymbolTable} (hR : Token.Pairing R)
  (hD : ∀ s s', D s s' → R s s') (ht : t.Alike R D t') (hcomplete : t.Complete) (types : TypeTable)

namespace Stmt.Alike

theorem checkAll {scope : ScopeId} {ss ss' : List Stmt}
    (h : List.Forall₂ (fun s s' =>
      Parallel R D (Stmt.Alike R) (s.check types t scope) (s'.check types t' scope)) ss ss') :
    Parallel R D (List.Forall₂ (Stmt.Alike R)) (check.checkAll types t scope ss)
      (check.checkAll types t' scope ss') := by
  induction h with
  | nil => exact .pure .nil
  | cons hs _ ih =>
      exact hs.bind fun _ _ hs => ih.bind_pure fun _ _ hss => .cons hs hss

variable {s s' : Stmt} {e e' : Expr} {e? e?' : Option Expr} {x x' : TypeName} {p p' : Token}
include hR hD ht hcomplete

theorem bindOptional (h : Option.Rel (Expr.Alike R) e? e?') (scope : ScopeId) :
    Parallel R D (Option.Rel (Expr.Alike R)) (check.bindOptional t scope e?)
      (check.bindOptional t' scope e?') := by
  cases h with
  | none => exact .pure .none
  | some he => exact (he.bindNames hR hD ht hcomplete scope).bind_pure fun _ _ he => .some he

theorem check_varDecl (hx : x.Alike R x') (hp : R p p') (h : Option.Rel (Expr.Alike R) e? e?')
    (symbol? : Option SymbolId) (scope : ScopeId) :
    Parallel R D (Stmt.Alike R) ((Stmt.varDecl x p e? symbol?).check types t scope)
      ((Stmt.varDecl x' p' e?' symbol?).check types t' scope) := by
  unfold Stmt.check
  cases symbol? with
  | none => exact .pure (.varDecl hx hp h)
  | some symbol =>
      cases h with
      | none => exact .pure (.varDecl hx hp .none)
      | some he =>
          dsimp only
          refine (he.bindNames hR hD ht hcomplete scope).bind fun _ _ he => ?_
          rw [← hx.resolved]
          cases x.resolved? with
          | none => exact .pure (.varDecl hx hp (.some he))
          | some expected =>
              refine (he.infer hR ht types (some symbol)).bind ?_
              rintro ⟨a, a?⟩ ⟨a', _⟩ ⟨ha, rfl⟩
              exact (Checking.assignable_parallel types _ a? hx.token).bind fun _ _ _ =>
                .pure (.varDecl hx hp (.some ha))

theorem check (h : s.Alike R s') {scope : ScopeId} (hscope : scope ≠ .global) :
    Parallel R D (Stmt.Alike R) (s.check types t scope) (s'.check types t' scope) := by
  have hbind := fun {e e' : Expr} (he : e.Alike R e') (scope : ScopeId) =>
    he.bindNames hR hD ht hcomplete scope
  have hcondition := fun {e e' : Expr} (he : e.Alike R e') (form : String) {p p' : Token}
    (hp : R p p') => Checking.condition_parallel hR ht types form hp he
  induction h using Stmt.Alike.induction generalizing scope with
  | empty hp => exact .pure (.empty hp)
  | breakLoop hp => exact .pure (.breakLoop hp)
  | whileLoop hc _ hp ih =>
      refine (hbind hc scope).bind fun _ _ hc => (ih hscope).bind fun _ _ hs => ?_
      exact (hcondition hc _ hp).bind_pure fun _ _ hc => .whileLoop hc hs hp
  | ifThen hc _ hp ih =>
      refine (hbind hc scope).bind fun _ _ hc => (ih hscope).bind fun _ _ hs => ?_
      exact (hcondition hc _ hp).bind_pure fun _ _ hc => .ifThen hc hs hp
  | ifThenElse hc _ _ hp ihs ihu =>
      refine (hbind hc scope).bind fun _ _ hc => (ihs hscope).bind fun _ _ hs => ?_
      refine (ihu hscope).bind fun _ _ hu => ?_
      exact (hcondition hc _ hp).bind_pure fun _ _ hc => .ifThenElse hc hs hu hp
  | block hss hp ih =>
      unfold Stmt.check
      rw [← ht.opened (.block hscope hp)]
      cases hinner : t.subScope? scope (blockScopeName _) with
      | none => exact .pure (.block hss hp)
      | some inner =>
          have hall := checkAll types (ih.imp fun _ _ ⟨_, hs⟩ => hs (ht.inner hinner))
          exact hall.bind_pure fun _ _ hss => .block hss hp
  | assign hi he =>
      refine (hi.bind hR hD ht hcomplete scope _).bind fun _ _ hi =>
        (hbind he scope).bind fun _ _ he => (hi.valueType hR ht none).bind ?_
      rintro expected? _ rfl
      refine (he.infer hR ht types none).bind ?_
      rintro ⟨a, a?⟩ ⟨a', _⟩ ⟨ha, rfl⟩
      exact (Checking.assignable_parallel types expected? a? hi.token).bind fun _ _ _ =>
        .pure (.assign hi ha)
  | returnValue he hp =>
      exact (bindOptional hR hD ht hcomplete he scope).bind fun _ _ he =>
        (Checking.returned_parallel hR ht types scope hp he).bind_pure fun _ _ he =>
          .returnValue he hp
  | varDecl hx hp he => exact check_varDecl hR hD ht hcomplete types hx hp he _ scope
  | call hi has hp =>
      refine (hi.bind hR hD ht hcomplete scope _).bind fun _ _ hi => ?_
      refine (Expr.Alike.bindArguments hR hD ht hcomplete has scope).bind fun _ _ has => ?_
      have hinfer := Expr.Alike.inferAll types none
        (has.imp fun _ _ he => he.infer hR ht types none)
      refine hinfer.bind fun _ _ hargs => ?_
      refine (Typing.call_parallel hR ht types hi hargs).bind fun _ _ _ => ?_
      exact .pure (.call hi (forall₂_fst hargs) hp)

end Stmt.Alike

include hR hD ht hcomplete

theorem FnDef.Alike.check {f f' : FnDef} (h : f.Alike R f') :
    Parallel R D (FnDef.Alike R) (f.check types t) (f'.check types t') := by
  have hname : f'.name.text = f.name.text := (hR.text_eq h.name).symm
  unfold FnDef.check
  rw [← h.symbol, hname, ← ht.opened .function]
  cases hscope : f.symbol?.bind fun _ => t.subScope? .global f.name.text with
  | none => exact .pure h
  | some scope =>
      obtain ⟨_, -, hsub⟩ := Option.bind_eq_some_iff.mp hscope
      have hne := ht.inner hsub
      dsimp only [Option.bind_some]
      rw [← ht.opened (.block hne h.openBrace)]
      cases hinner : t.subScope? scope (Stmt.blockScopeName f.openBrace) with
      | none => exact .pure h
      | some inner =>
          have hbody := Stmt.Alike.checkAll types (h.body.imp fun _ _ hs =>
            hs.check hR hD ht hcomplete types (ht.inner hinner))
          exact hbody.bind_pure fun _ _ hbody => { h with body := hbody, symbol := rfl }

theorem Global.Alike.check {g g' : Global} (h : g.Alike R g') :
    Parallel R D (Global.Alike R) (g.check types t) (g'.check types t') := by
  cases h with
  | function hf => exact (hf.check hR hD ht hcomplete types).bind_pure fun _ _ hf => .function hf
  | var hv => exact .pure (.var hv)

theorem Global.Alike.checkAll {gs gs' : List Global} (h : List.Forall₂ (Global.Alike R) gs gs') :
    Parallel R D (List.Forall₂ (Global.Alike R)) (Global.checkAll types t gs)
      (Global.checkAll types t' gs') := by
  induction h with
  | nil => exact .pure .nil
  | cons hg _ ih =>
      exact (hg.check hR hD ht hcomplete types).bind fun _ _ hg =>
        ih.bind_pure fun _ _ hgs => .cons hg hgs

theorem Program.Alike.check {p p' : Program} (h : p.Alike R p') :
    Parallel R D (Program.Alike R) (p.check types t) (p'.check types t') :=
  (Global.Alike.checkAll hR hD ht hcomplete types h).bind_pure fun _ _ hgs => hgs

end ScriptFront
