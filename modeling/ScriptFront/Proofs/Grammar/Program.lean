import ScriptFront.Program.Basic
import ScriptFront.Proofs.Grammar.Stmt

/-!
# The grammar of programs

A program is a row of definitions. As in the grammar of statements, the tokens
of expressions are taken from elsewhere.
-/
namespace ScriptFront

inductive Param.SpelledBy : Param → List Token → Prop
  | intro {type : TypeName} {name : Token} {w : List Token} :
      type.SpelledBy w → name.kind = .identifier →
      SpelledBy ⟨type, name, none⟩ (w ++ [name])

variable (expr : Expr → List Token → Prop)

inductive FnDef.SpelledBy : FnDef → List Token → Prop
  | intro {type : TypeName} {name openParen closeParen openBrace : Token}
      {params : List Param} {body : List Stmt} {w v u : List Token} :
      type.SpelledBy w → name.kind = .identifier → openParen.kind = .openParen →
      Listed Param.SpelledBy params v → closeParen.kind = .closeParen →
      Braced expr (body, openBrace) u →
      SpelledBy ⟨type, name, params, openParen, body, openBrace, none⟩
        (w ++ name :: openParen :: (v ++ closeParen :: u))

inductive GlobalVar.SpelledBy : GlobalVar → List Token → Prop
  | intro {type : TypeName} {name semicolon : Token} {w : List Token} :
      type.SpelledBy w → name.kind = .identifier → semicolon.kind = .semicolon →
      SpelledBy ⟨type, name, none⟩ (w ++ [name, semicolon])

inductive Global.SpelledBy : Global → List Token → Prop
  | function {f : FnDef} {w : List Token} : f.SpelledBy expr w → SpelledBy (.function f) w
  | var {v : GlobalVar} {w : List Token} : v.SpelledBy w → SpelledBy (.var v) w

def Program.SpelledBy (p : Program) (w : List Token) : Prop :=
  Repeated (Global.SpelledBy expr) p.globals w

variable {expr : Expr → List Token → Prop}

theorem Global.SpelledBy.opens {g : Global} {w : List Token} (h : g.SpelledBy expr w) :
    ∃ t v, w = t :: v ∧ t.kind = .identifier := by
  cases h with
  | function hf =>
      cases hf with
      | intro htype =>
          obtain ⟨t, v, rfl, ht⟩ := htype.opens
          exact ⟨t, _, rfl, ht⟩
  | var hv =>
      cases hv with
      | intro htype =>
          obtain ⟨t, v, rfl, ht⟩ := htype.opens
          exact ⟨t, _, rfl, ht⟩

theorem Global.SpelledBy.ne_nil {g : Global} {w : List Token} (h : g.SpelledBy expr w) :
    w ≠ [] := by
  obtain ⟨t, v, rfl, -⟩ := h.opens
  simp

end ScriptFront
