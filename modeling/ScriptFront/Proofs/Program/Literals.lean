import ScriptFront.Proofs.Program.Language
import ScriptFront.Proofs.Tree.Parts

/-!
# The literals of a parsed tree

Whatever the parser builds, each literal in it has the value that its token spells. The
parser tries expressions and takes them back, but a literal that is left in the end was made
from its token alone.
-/
namespace ScriptFront

variable {value : Literal} {token : Token} {type? : Option TypeId} {w body : List Token}
  {last : Token}

/-- The expressions in a phrase of an expression. -/
def ExprPhrase.parts : ExprPhrase → List Expr
  | expr _ e => e.parts
  | arguments es => Expr.parts.partsAll es

theorem ExprPhrase.SpelledBy.literal_of_parts {p : ExprPhrase} (h : p.SpelledBy w)
    (hmem : .literal value token type? ∈ p.parts) : value.SpelledBy token := by
  induction h with
  | literal hv =>
      cases List.mem_singleton.mp hmem
      exact hv
  | name => cases List.mem_singleton.mp hmem
  | group _ _ _ ih | plus _ _ ih | tighter _ _ ih => exact ih hmem
  | neg _ _ ih | not _ _ ih =>
      exact ih ((List.mem_cons.mp hmem).resolve_left nofun)
  | subscript _ _ _ _ iha ihi =>
      exact (List.mem_append.mp ((List.mem_cons.mp hmem).resolve_left nofun)).elim iha ihi
  | member _ _ _ ih =>
      rcases List.mem_append.mp ((List.mem_cons.mp hmem).resolve_left nofun) with hmem | hmem
      · exact ih hmem
      · cases List.mem_singleton.mp hmem
  | callEmpty =>
      cases (List.mem_cons.mp hmem).resolve_left nofun
  | call _ _ _ _ _ iha => exact iha ((List.mem_cons.mp hmem).resolve_left nofun)
  | binary _ _ _ iha ihb =>
      exact (List.mem_append.mp ((List.mem_cons.mp hmem).resolve_left nofun)).elim iha ihb
  | argument _ ih => exact ih (by simpa [parts, Expr.parts.partsAll] using hmem)
  | arguments _ _ _ ihe ihes => exact (List.mem_append.mp hmem).elim ihe ihes

/-- The outermost expressions in a phrase of statements. -/
def StmtPhrase.exprs : StmtPhrase → List Expr
  | stmt s => s.exprs
  | stmts ss => Stmt.exprs.exprsAll ss

/-- The expressions in a statement that is spelled are spelled. A call that is a statement
counts as the expression that begins it. -/
theorem StmtPhrase.SpelledBy.exists_spelledBy {p : StmtPhrase} (h : p.SpelledBy Expr.SpelledBy w)
    {e : Expr} (he : e ∈ p.exprs) : ∃ v, e.SpelledBy v := by
  induction h with
  | breakLoop | empty | nil => cases he
  | whileLoop _ _ hcondition _ _ ih | ifThen _ _ hcondition _ _ ih =>
      rcases List.mem_cons.mp he with rfl | he
      · exact ⟨_, hcondition⟩
      · exact ih he
  | ifThenElse _ _ hcondition _ _ _ _ _ ihthen ihelse =>
      rcases List.mem_cons.mp he with rfl | he
      · exact ⟨_, hcondition⟩
      · exact (List.mem_append.mp he).elim ihthen ihelse
  | call hk ho hargs hc =>
      obtain rfl := List.mem_singleton.mp he
      exact ⟨_, Expr.spelledBy_call hk ho hargs hc⟩
  | returnValue _ hvalue =>
      cases hvalue with
      | none => cases he
      | some hv =>
          obtain rfl := List.mem_singleton.mp he
          exact ⟨_, hv⟩
  | varDecl _ _ hinitializer =>
      cases hinitializer with
      | none => cases he
      | some hv =>
          obtain rfl := List.mem_singleton.mp he
          obtain ⟨_, u, -, hu, -⟩ := hv
          exact ⟨u, hu⟩
  | assign hk _ hvalue =>
      rcases List.mem_cons.mp he with rfl | he
      · exact ⟨_, (ExprPhrase.SpelledBy.name hk).loosen (Nat.zero_le _)⟩
      · obtain rfl := List.mem_singleton.mp he
        exact ⟨_, hvalue⟩
  | block _ _ _ ih => exact ih he
  | cons _ _ ihs ihss => exact (List.mem_append.mp he).elim ihs ihss

theorem Global.SpelledBy.exists_spelledBy {g : Global} (h : g.SpelledBy Expr.SpelledBy w)
    {e : Expr} (he : e ∈ g.exprs) : ∃ v, e.SpelledBy v := by
  cases h with
  | var => cases he
  | function hf =>
      cases hf with
      | intro _ _ _ _ _ hbody => exact hbody.stmt.exists_spelledBy he

theorem Program.SpelledBy.literal_of_parts {p : Program} (h : p.SpelledBy Expr.SpelledBy w)
    (hmem : .literal value token type? ∈ p.parts) : value.SpelledBy token := by
  obtain ⟨e, he, hmem⟩ := List.mem_flatMap.mp hmem
  obtain ⟨g, hg, he⟩ := List.mem_flatMap.mp he
  obtain ⟨v, hv, -⟩ := Repeated.exists_of_mem h hg
  obtain ⟨u, hu⟩ := hv.exists_spelledBy he
  exact hu.literal_of_parts hmem

section
variable (hlast : last.kind = .endOfInput) (hbody : ∀ t ∈ body, t.kind ≠ .endOfInput)
include hlast hbody

/-- The literals of a parsed expression have the values that their tokens spell. -/
theorem Expr.literal_of_ofTokens {e : Expr} (he : Expr.ofTokens (body ++ [last]) = .ok e)
    (hmem : .literal value token type? ∈ e.parts) : value.SpelledBy token :=
  (Expr.spelledBy_of_ofTokens hlast hbody he).literal_of_parts hmem

/-- The literals of a parsed program have the values that their tokens spell. -/
theorem Program.literal_of_ofTokens {p : Program} (hp : Program.ofTokens (body ++ [last]) = .ok p)
    (hmem : .literal value token type? ∈ p.parts) : value.SpelledBy token :=
  (Program.spelledBy_of_ofTokens hlast hbody hp).literal_of_parts hmem

end

end ScriptFront
