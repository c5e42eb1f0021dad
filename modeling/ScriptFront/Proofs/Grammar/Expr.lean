import Mathlib.Tactic.Common
import ScriptFront.Expr.Basic
import ScriptFront.Proofs.Grammar.Sequences

/-!
# The grammar of expressions

Expressions come in five strata. An atom is a literal, a name, an expression in
parentheses, or an atom behind a sign. Behind an atom there may be subscripts,
members and arguments. Products, sums and relations are chains of operators that
group to the left, each with operands of the stratum below. Parentheses and a
plus sign leave no node, so that only the tree tells whether a name is called.

The grammar does not mention how expressions are parsed.
-/
namespace ScriptFront

inductive Literal.SpelledBy : Literal → Token → Prop
  | int {t : Token} {n : Int} :
      t.kind = .int → Numeral.integer? t.text.toList = some n → SpelledBy (.int n) t
  | float {t : Token} {x : Numeral.Binary64} :
      t.kind = .float → Numeral.Binary64.ofText? t.text.toList = some x →
      SpelledBy (.float x) t
  | bool {t : Token} : t.kind = .bool → SpelledBy (.bool (t.text == "true")) t
  | string {t : Token} : t.kind = .string → SpelledBy (.string t.text) t

/-- The strata of expressions, tightest first. -/
inductive Stratum where
  | atom | suffixed | product | sum | relation
deriving DecidableEq, Repr

namespace Stratum

/-- How many strata lie below. -/
def rank : Stratum → ℕ
  | atom => 0
  | suffixed => 1
  | product => 2
  | sum => 3
  | relation => 4

/-- The stratum below, from which the operands come. There is none below the
atoms. -/
def tighter : Stratum → Stratum
  | relation => sum
  | sum => product
  | product => suffixed
  | suffixed | atom => atom

/-- The operator of a chain in the stratum that a kind of token stands for. -/
def operator? : Stratum → TokenKind → Option BinaryOp
  | product, .star => some .mul
  | product, .slash => some .div
  | product, .percent => some .mod
  | product, .and => some .and
  | sum, .plus => some .add
  | sum, .dash => some .sub
  | sum, .or => some .or
  | sum, .xor => some .xor
  | relation, .less => some .less
  | relation, .lessEquals => some .lessEquals
  | relation, .greater => some .greater
  | relation, .greaterEquals => some .greaterEquals
  | relation, .equals => some .equal
  | relation, .notEquals => some .unequal
  | _, _ => none

theorem rank_tighter (q : Stratum) : q.tighter.rank = q.rank - 1 := by
  cases q <;> rfl

theorem rank_injective {q r : Stratum} (h : q.rank = r.rank) : q = r := by
  cases q <;> cases r <;> simp_all [rank]

end Stratum

/-- What a part of an expression can be: an expression of a stratum, or the
arguments of a call. -/
inductive ExprPhrase where
  | expr (stratum : Stratum) (e : Expr)
  | arguments (es : List Expr)

inductive ExprPhrase.SpelledBy : ExprPhrase → List Token → Prop
  | literal {value : Literal} {t : Token} :
      value.SpelledBy t → SpelledBy (.expr .atom (.literal value t none)) [t]
  | name {t : Token} :
      t.kind = .identifier → SpelledBy (.expr .atom (.ident ⟨t, none, none⟩)) [t]
  | group {opening closing : Token} {e : Expr} {w : List Token} :
      opening.kind = .openParen → SpelledBy (.expr .relation e) w →
      closing.kind = .closeParen → SpelledBy (.expr .atom e) (opening :: (w ++ [closing]))
  | plus {sign : Token} {e : Expr} {w : List Token} :
      sign.kind = .plus → SpelledBy (.expr .atom e) w → SpelledBy (.expr .atom e) (sign :: w)
  | neg {sign : Token} {e : Expr} {w : List Token} :
      sign.kind = .dash → SpelledBy (.expr .atom e) w →
      SpelledBy (.expr .atom (.unary .neg e sign none)) (sign :: w)
  | not {sign : Token} {e : Expr} {w : List Token} :
      sign.kind = .not → SpelledBy (.expr .atom e) w →
      SpelledBy (.expr .atom (.unary .not e sign none)) (sign :: w)
  | subscript {a i : Expr} {opening closing : Token} {w v : List Token} :
      SpelledBy (.expr .suffixed a) w → opening.kind = .openBracket →
      SpelledBy (.expr .relation i) v → closing.kind = .closeBracket →
      SpelledBy (.expr .suffixed (.binary .subscript a i opening none))
        (w ++ opening :: (v ++ [closing]))
  | member {a : Expr} {dot name : Token} {w : List Token} :
      SpelledBy (.expr .suffixed a) w → dot.kind = .dot → name.kind = .identifier →
      SpelledBy
        (.expr .suffixed (.binary .memberAccess a (.ident ⟨name, none, none⟩) dot none))
        (w ++ [dot, name])
  | callEmpty {callee : Ident} {opening closing : Token} {w : List Token} :
      SpelledBy (.expr .suffixed (.ident callee)) w → opening.kind = .openParen →
      closing.kind = .closeParen →
      SpelledBy (.expr .suffixed (.call callee [] opening none)) (w ++ [opening, closing])
  | call {callee : Ident} {args : List Expr} {opening closing : Token} {w v : List Token} :
      SpelledBy (.expr .suffixed (.ident callee)) w → opening.kind = .openParen →
      SpelledBy (.arguments args) v → closing.kind = .closeParen →
      SpelledBy (.expr .suffixed (.call callee args opening none))
        (w ++ opening :: (v ++ [closing]))
  | binary {q : Stratum} {op : BinaryOp} {a b : Expr} {t : Token} {w v : List Token} :
      q.operator? t.kind = some op → SpelledBy (.expr q a) w →
      SpelledBy (.expr q.tighter b) v →
      SpelledBy (.expr q (.binary op a b t none)) (w ++ t :: v)
  | tighter {q : Stratum} {e : Expr} {w : List Token} :
      q ≠ .atom → SpelledBy (.expr q.tighter e) w → SpelledBy (.expr q e) w
  | argument {e : Expr} {w : List Token} :
      SpelledBy (.expr .relation e) w → SpelledBy (.arguments [e]) w
  | arguments {e : Expr} {es : List Expr} {comma : Token} {w v : List Token} :
      SpelledBy (.expr .relation e) w → comma.kind = .comma →
      SpelledBy (.arguments es) v → SpelledBy (.arguments (e :: es)) (w ++ comma :: v)

abbrev Expr.Of (q : Stratum) (e : Expr) (w : List Token) : Prop :=
  ExprPhrase.SpelledBy (.expr q e) w

abbrev Expr.SpelledBy (e : Expr) (w : List Token) : Prop :=
  ExprPhrase.SpelledBy (.expr .relation e) w

def TokenKind.sample (k : TokenKind) : Token := ⟨k, k.name, Position.start⟩

theorem TokenKind.kind_sample (k : TokenKind) : k.sample.kind = k := rfl

def TokenKind.OpensExpr (k : TokenKind) : Prop :=
  k ∈ [.int, .float, .bool, .string, .identifier, .openParen, .plus, .dash, .not]

theorem Literal.SpelledBy.opensExpr {value : Literal} {t : Token} (h : value.SpelledBy t) :
    t.kind.OpensExpr := by
  cases h <;> simp [TokenKind.OpensExpr, *]

namespace ExprPhrase.SpelledBy

theorem opens {p : ExprPhrase} {w : List Token} (h : p.SpelledBy w) :
    ∃ t v, w = t :: v ∧ t.kind.OpensExpr := by
  induction h with
  | literal hv => exact ⟨_, _, rfl, hv.opensExpr⟩
  | name ht => exact ⟨_, _, rfl, by simp [TokenKind.OpensExpr, ht]⟩
  | group ho => exact ⟨_, _, rfl, by simp [TokenKind.OpensExpr, ho]⟩
  | plus ht | neg ht | not ht => exact ⟨_, _, rfl, by simp [TokenKind.OpensExpr, ht]⟩
  | tighter _ _ ih | argument _ ih => exact ih
  | subscript _ _ _ _ ih | member _ _ _ ih | callEmpty _ _ _ ih | call _ _ _ _ ih
  | binary _ _ _ ih | arguments _ _ _ ih =>
      obtain ⟨t, v, rfl, ht⟩ := ih
      exact ⟨t, _, rfl, ht⟩

theorem ne_nil {p : ExprPhrase} {w : List Token} (h : p.SpelledBy w) : w ≠ [] := by
  obtain ⟨t, v, rfl, -⟩ := h.opens
  simp

theorem atom_of_name {e : Expr} {t : Token} {v : List Token} (ht : t.kind = .identifier)
    (h : SpelledBy (.expr .atom e) (t :: v)) : e = .ident ⟨t, none, none⟩ ∧ v = [] := by
  generalize hw : t :: v = w at h
  cases h with
  | name =>
      cases hw
      exact ⟨rfl, rfl⟩
  | literal hv =>
      cases hw
      cases hv <;> simp_all
  | group ho | plus ho | neg ho | not ho =>
      cases hw
      simp_all
  | binary hop => simp [Stratum.operator?] at hop
  | tighter hne => exact absurd rfl hne

theorem ident_of_name {q : Stratum} {name : Ident} {t : Token} {v : List Token}
    (ht : t.kind = .identifier) (h : SpelledBy (.expr q (.ident name)) (t :: v)) :
    name = ⟨t, none, none⟩ ∧ v = [] := by
  generalize hw : t :: v = w at h
  generalize hp : ExprPhrase.expr q (.ident name) = p at h
  induction h generalizing q <;>
    simp only [reduceCtorEq, ExprPhrase.expr.injEq, Expr.ident.injEq, and_false] at hp
  case name =>
      cases hw
      exact ⟨hp.2, rfl⟩
  case group ho _ _ _ | plus ho _ _ =>
      cases hw
      simp [ht] at ho
  case tighter ih =>
      obtain ⟨rfl, rfl⟩ := hp
      exact ih hw rfl

/-- Arguments are expressions with commas between them. -/
theorem arguments_iff {es : List Expr} {w : List Token} :
    SpelledBy (.arguments es) w ↔ Separated Expr.SpelledBy es w := by
  constructor
  · intro h
    generalize hp : ExprPhrase.arguments es = p at h
    induction h generalizing es <;> simp only [reduceCtorEq, ExprPhrase.arguments.injEq] at hp
    case argument he _ => exact hp ▸ .single he
    case arguments he hcomma _ _ ih => exact hp ▸ .cons he hcomma (ih rfl)
  · intro h
    induction h with
    | single he => exact .argument he
    | cons he hcomma _ ih => exact .arguments he hcomma ih

/-- A call that begins with a name is a call of that name, and its arguments begin behind
the next token. -/
theorem call_of_name {q : Stratum} {callee : Ident} {args : List Expr} {opening t : Token}
    {v : List Token} (ht : t.kind = .identifier)
    (h : SpelledBy (.expr q (.call callee args opening none)) (t :: v)) :
    callee = ⟨t, none, none⟩ ∧ ∃ w closing, Listed Expr.SpelledBy args w ∧
      v = opening :: (w ++ [closing]) := by
  generalize hw : t :: v = u at h
  generalize hp : ExprPhrase.expr q (.call callee args opening none) = p at h
  induction h generalizing q <;>
    simp only [reduceCtorEq, ExprPhrase.expr.injEq, Expr.call.injEq, and_false] at hp
  case group ho _ _ _ | plus ho _ _ =>
      cases hw
      simp [ht] at ho
  case callEmpty hcallee _ _ _ =>
      obtain ⟨rfl, rfl, rfl, rfl, -⟩ := hp
      obtain ⟨x, y, rfl, -⟩ := hcallee.opens
      cases hw
      obtain ⟨rfl, rfl⟩ := hcallee.ident_of_name ht
      exact ⟨rfl, [], _, .nil, rfl⟩
  case call hcallee _ hargs _ _ _ =>
      obtain ⟨rfl, rfl, rfl, rfl, -⟩ := hp
      obtain ⟨x, y, rfl, -⟩ := hcallee.opens
      cases hw
      obtain ⟨rfl, rfl⟩ := hcallee.ident_of_name ht
      exact ⟨rfl, _, _, .some (arguments_iff.mp hargs), rfl⟩
  case tighter ih =>
      obtain ⟨rfl, rfl⟩ := hp
      exact ih hw rfl

theorem loosen {q r : Stratum} {e : Expr} {w : List Token} (h : SpelledBy (.expr q e) w)
    (hqr : q.rank ≤ r.rank) : SpelledBy (.expr r e) w := by
  induction hn : r.rank - q.rank generalizing r with
  | zero =>
      rw [Stratum.rank_injective (q := r) (r := q) (by omega)]
      exact h
  | succ n ih =>
      have hr := r.rank_tighter
      have hne : r ≠ .atom := by
        rintro rfl
        simp [Stratum.rank] at hn
      exact .tighter hne (ih (by omega) (by omega))

theorem sample (q : Stratum) :
    SpelledBy (.expr q (.ident ⟨TokenKind.identifier.sample, none, none⟩))
      [TokenKind.identifier.sample] :=
  (name rfl).loosen (Nat.zero_le _)

end ExprPhrase.SpelledBy

theorem Expr.spelledBy_call {args : List Expr} {name opening closing : Token} {w : List Token}
    (hname : name.kind = .identifier) (ho : opening.kind = .openParen)
    (hargs : Listed Expr.SpelledBy args w) (hc : closing.kind = .closeParen) :
    Expr.SpelledBy (.call ⟨name, none, none⟩ args opening none)
      (name :: opening :: (w ++ [closing])) := by
  have hcallee : Expr.Of .suffixed (.ident ⟨name, none, none⟩) [name] :=
    (ExprPhrase.SpelledBy.name hname).loosen (Nat.zero_le _)
  have hcall : Expr.Of .suffixed (.call ⟨name, none, none⟩ args opening none)
      (name :: opening :: (w ++ [closing])) := by
    cases hargs with
    | nil => exact .callEmpty hcallee ho hc
    | some h => exact .call hcallee ho (ExprPhrase.SpelledBy.arguments_iff.mpr h) hc
  exact hcall.loosen (by decide)

theorem Literal.SpelledBy.ne_endOfInput {value : Literal} {t : Token}
    (h : value.SpelledBy t) : t.kind ≠ .endOfInput := by
  cases h <;> simp [*]

theorem Stratum.ne_endOfInput {q : Stratum} {k : TokenKind} {op : BinaryOp}
    (h : q.operator? k = some op) : k ≠ .endOfInput := by
  rintro rfl
  cases q <;> simp [operator?] at h

/-- No end mark is a part of an expression. -/
theorem ExprPhrase.SpelledBy.ne_endOfInput {p : ExprPhrase} {w : List Token}
    (h : p.SpelledBy w) : ∀ t ∈ w, t.kind ≠ .endOfInput := by
  induction h with
  | literal hv => simpa using hv.ne_endOfInput
  | name ht => simp [ht]
  | tighter _ _ ih | argument _ ih => exact ih
  | binary hop =>
      have hk := Stratum.ne_endOfInput hop
      simp_all [or_imp]
  | group | plus | neg | not | subscript | member | callEmpty | call | arguments =>
      simp_all [or_imp]

end ScriptFront
