import ScriptFront.Program.Parser
import ScriptFront.Proofs.Stmt.Parallel

/-!
# Programs side by side

From related tokens the program parser reads alike programs, or it fails with alike
diagnostics.
-/
namespace ScriptFront

variable {R : Token → Token → Prop} (hR : Token.Pairing R)

namespace Parser.Parallel

include hR

theorem param : Parallel R (Param.Alike R) Parser.param Parser.param :=
  ((typeName hR).bind fun _ _ hx =>
    (accept hR _).bind_pure fun _ _ ht => ⟨hx, ht, rfl⟩).attempt _

theorem fnDef : Parallel R (FnDef.Alike R) Parser.fnDef Parser.fnDef := by
  refine ((typeName hR).bind fun _ _ hx => (accept hR _).bind fun _ _ ht =>
    (accept hR _).bind fun _ _ ho => ?_).attempt _
  rw [paramList_eq]
  exact (listed hR (param hR) _).bind fun _ _ hparams => (accept hR _).seq
    ((block hR).bind_pure fun _ _ hb => ⟨hx, ht, hparams, ho, hb.1, hb.2, rfl⟩)

theorem globalVar : Parallel R (GlobalVar.Alike R) Parser.globalVar Parser.globalVar :=
  ((typeName hR).bind fun _ _ hx => (accept hR _).bind fun _ _ ht =>
    (accept hR _).seq (.pure ⟨hx, ht, rfl⟩)).attempt _

theorem global : Parallel R (Global.Alike R) Parser.global Parser.global :=
  ((fnDef hR).bind_pure fun _ _ hf => .function hf).orElse
    ((globalVar hR).bind_pure fun _ _ hv => .var hv)

theorem program : Parallel R (Program.Alike R) Parser.program Parser.program := by
  refine (global hR).many.bind fun _ _ hgs => (currentKind hR).bind ?_
  rintro kind _ rfl
  split_ifs
  · exact .pure hgs
  · exact stop hR

end Parser.Parallel

/-! ## Lists of tokens -/

theorem TokenStream.ofList_concat (body : List Token) (last : Token) :
    ofList (body ++ [last]) = ⟨body.toArray, last⟩ := by
  rw [ofList, List.dropLast_concat, List.getLastD_concat]

theorem TokenStream.get_ofList_concat (body : List Token) (last : Token) (i : ℕ) :
    (ofList (body ++ [last])).get i = body[i]?.getD last := by
  rw [ofList_concat, get, Array.getD_eq_getD_getElem?, List.getElem?_toArray]

theorem rel_getElem?_of_forall₂ {α β : Type} {S : α → β → Prop} {as : List α} {bs : List β}
    (h : List.Forall₂ S as bs) (i : ℕ) : Option.Rel S as[i]? bs[i]? := by
  induction h generalizing i with
  | nil => exact .none
  | cons hab _ ih =>
      cases i with
      | zero => exact .some hab
      | succ i => exact ih i

theorem ParserState.alike_ofTokens {body body' : List Token} {last last' : Token}
    (hbody : List.Forall₂ R body body') (hlast : R last last') (production : String) :
    (ofTokens (body ++ [last]) production).Alike R (ofTokens (body' ++ [last']) production) where
  token i := by
    change R ((TokenStream.ofList _).get i) ((TokenStream.ofList _).get i)
    rw [TokenStream.get_ofList_concat, TokenStream.get_ofList_concat]
    have hi := rel_getElem?_of_forall₂ hbody i
    generalize body[i]? = t? at hi
    generalize body'[i]? = t?' at hi
    cases hi with
    | none => exact hlast
    | some ht => exact ht
  size := by
    change (TokenStream.ofList _).size = (TokenStream.ofList _).size
    rw [TokenStream.ofList_concat, TokenStream.ofList_concat, TokenStream.size, TokenStream.size,
      List.size_toArray, List.size_toArray, hbody.length_eq]
  index := rfl
  marks := rfl
  furthest := rfl
  furthestProduction := rfl
  production := rfl
  grammar := rfl

include hR in
theorem Program.ofTokens_alike {body body' : List Token} {last last' : Token}
    (hbody : List.Forall₂ R body body') (hlast : R last last') :
    (∃ p p', ofTokens (body ++ [last]) = .ok p ∧ ofTokens (body' ++ [last']) = .ok p' ∧
      p.Alike R p') ∨
    ∃ d d', ofTokens (body ++ [last]) = .error d ∧ ofTokens (body' ++ [last']) = .error d' ∧
      d.Alike R emptyRelation d' := by
  have hends := Parser.Parallel.program hR _ _ (ParserState.alike_ofTokens hbody hlast "program")
  unfold ofTokens Parser.result
  generalize Parser.program (ParserState.ofTokens (body ++ [last]) "program") = r at hends
  generalize Parser.program (ParserState.ofTokens (body' ++ [last']) "program") = r' at hends
  cases hends with
  | matched hp => exact .inl ⟨_, _, rfl, rfl, hp⟩
  | noMatch hs => exact .inr ⟨_, _, rfl, rfl, hR.syntaxError hs⟩
  | failed hd => exact .inr ⟨_, _, rfl, rfl, hd⟩

end ScriptFront
