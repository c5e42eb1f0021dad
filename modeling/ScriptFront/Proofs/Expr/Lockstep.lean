import ScriptFront.Proofs.Expr.Powers
import ScriptFront.Proofs.Parsing.Lockstep

/-!
# Expressions in lockstep

An operand and each continuation of a chain begin with a token that is read, so
the expression parser attends to the next token, and what it decides by a look
at a token it reads right after. The two runs may have different bounds for
nesting, arguments and rounds.
-/
namespace ScriptFront

variable {b b' : ℕ} {sub sub' : BindingPower → Parser Expr}

/-! ## Behind the first token -/

/-- What an opening reads behind its first token. -/
def Opening.rest (sub : BindingPower → Parser Expr) : Opening → Token → Parser Expr
  | primary, token => Parser.ofExcept (Expr.ofToken token)
  | signed, sign => do
    let operand ← sub .primary
    return Expr.ofSign sign operand
  | grouping, _ => do
    let inner ← sub .lowest
    let _ ← Parser.expect .closeParen
    return inner

/-- What a continuation reads behind its first token. -/
def Continuation.rest (sub : BindingPower → Parser Expr) (left : Expr) (power : BindingPower) :
    Continuation → Token → Parser Expr
  | binary, operator =>
    match BinaryOp.ofKind? operator.kind with
    | none => Parser.fail (.unexpected operator "expected an operator")
    | some op => do
      let right ← sub power
      return .binary op left right operator none
  | call, openParen =>
    match left with
    | .ident callee => do
      let args ← argumentsAndClose sub
      return .call callee args openParen none
    | _ => Parser.fail (.unexpected left.token "only a name can be called")
  | subscript, openBracket => do
    let index ← sub .lowest
    let _ ← Parser.expect .closeBracket
    return .binary .subscript left index openBracket none
  | member, dot => do
    if (← Parser.currentKind) = .identifier then
      let name ← sub .primary
      return .binary .memberAccess left name dot none
    else
      let token ← Parser.advance
      Parser.fail (.unexpected token "expected a member name after '.'")

theorem Opening.parse_eq (o : Opening) : o.parse sub = (Parser.advance >>= o.rest sub) := by
  cases o <;> rfl

theorem Continuation.parse_eq (c : Continuation) (left : Expr) (power : BindingPower) :
    c.parse sub left power = (Parser.advance >>= c.rest sub left power) := by
  cases c <;> rfl

theorem Parser.operand_eq : operand sub =
    onNext (fun g kind => g.operators.opening? kind) (fun o => o.rest sub)
      (advance >>= fun token => fail (.unexpected token "expected an expression")) := by
  funext s
  cases h : s.grammar.operators.opening? s.cursor.current.kind with
  | none => rw [operand_of_none h, onNext_of_none h]
  | some o => rw [operand_of_opening h, onNext_of_some h, Opening.parse_eq]; rfl

/-- How a kind of token continues a chain with the given bound. -/
def BindingPower.continuation? (power : BindingPower) (g : Grammar) (kind : TokenKind) :
    Option (Continuation × BindingPower) :=
  if (g.operators.power kind).level ≤ power.level then none
  else (g.operators.continuation? kind).map (·, g.operators.power kind)

theorem Parser.climb_succ_eq (power : BindingPower) (n : ℕ) (left : Expr) :
    climb sub power (n + 1) left =
      onNext power.continuation? (fun c t => c.1.rest sub left c.2 t >>= climb sub power n)
        (Pure.pure left) := by
  funext s
  by_cases hl : (s.grammar.operators.power s.cursor.current.kind).level ≤ power.level
  · rw [climb_of_level_le n hl, onNext_of_none (by rw [BindingPower.continuation?, if_pos hl])]
    rfl
  · cases hc : s.grammar.operators.continuation? s.cursor.current.kind with
    | none =>
        rw [climb_of_none n hc,
          onNext_of_none (by rw [BindingPower.continuation?, if_neg hl, hc]; rfl)]
        rfl
    | some c =>
        have hchoice : power.continuation? s.grammar s.cursor.current.kind =
            some (c, s.grammar.operators.power s.cursor.current.kind) := by
          rw [BindingPower.continuation?, if_neg hl, hc]
          rfl
        rw [climb_of_continuation n (by omega) hc, onNext_of_some hchoice,
          Continuation.parse_eq]
        rfl

/-! ## Steady parts -/

section
variable (hsub : ∀ power, Steady b b' (sub power) (sub' power))
include hsub

theorem Locked.opening (o : Opening) (t : Token) :
    Locked 1 b b' (o.rest sub t) (o.rest sub' t) := by
  cases o with
  | primary =>
      change Locked 1 b b' (Parser.ofExcept (Expr.ofToken t)) (Parser.ofExcept (Expr.ofToken t))
      cases Expr.ofToken t with
      | ok e => exact (Steady.pure e).locked
      | error d => exact .fail d
  | signed => exact ((hsub .primary).bind fun _ => .pure _).locked
  | grouping =>
      exact ((hsub .lowest).bind fun _ => .expect_then (by decide) fun _ => .pure _).locked

theorem Steady.operand :
    Steady (b + 1) (b' + 1) (Parser.operand sub) (Parser.operand sub') := by
  rw [Parser.operand_eq, Parser.operand_eq]
  refine .onNext (fun s hs => ?_) (fun o t => .opening hsub o t) ?_
  · rw [hs.operators]
    rfl
  · exact .advance_bind (fun _ _ => .fail _) fun _ _ _ _ => .fail _

theorem Steady.arguments (n n' : ℕ) :
    Steady (min n b) (min n' b') (Continuation.arguments sub n)
      (Continuation.arguments sub' n') := by
  refine Steady.levels (fun n (_ : Unit) => Continuation.arguments sub n)
    (fun n _ => Continuation.arguments sub' n) (min · b) (min · b') (by simp) (by simp)
    (fun n n' ih _ => ?_) n n' ()
  have hfirst := (hsub .lowest).mono (min_le_right (n + 1) b) (min_le_right (n' + 1) b')
  refine hfirst.bind fun first => ?_
  -- the further arguments come behind a comma
  have hmore : Steady (min n b + 1) (min n' b' + 1)
      (Parser.onNext (fun _ kind => if kind = .comma then some () else none)
        (fun _ _ => Continuation.arguments sub n >>= fun rest => Pure.pure (first :: rest))
        (Pure.pure [first]))
      (Parser.onNext (fun _ kind => if kind = .comma then some () else none)
        (fun _ _ => Continuation.arguments sub' n' >>= fun rest => Pure.pure (first :: rest))
        (Pure.pure [first])) :=
    .onNext (fun _ _ => rfl) (fun _ _ => ((ih ()).bind fun _ => .pure _).locked) (.pure _)
  have heq : ∀ more : Parser (List Expr),
      (Parser.currentKind >>= fun kind =>
        if kind = .comma then Parser.advance >>= fun _ => more else Pure.pure [first]) =
      Parser.onNext (fun _ kind => if kind = .comma then some () else none) (fun _ _ => more)
        (Pure.pure [first]) := by
    intro more
    funext s
    change (if s.cursor.current.kind = .comma then Parser.advance >>= fun _ => more
      else Pure.pure [first] : Parser (List Expr)) s = _
    rw [Parser.onNext]
    split_ifs <;> rfl
  rw [heq, heq]
  exact hmore.mono (by omega) (by omega)

theorem Steady.argumentsAndClose :
    Steady b b' (Continuation.argumentsAndClose sub) (Continuation.argumentsAndClose sub') := by
  refine .currentKind_bind fun kind => ?_
  split_ifs
  · have hclose : Steady (b + 1) (b' + 1)
        (Parser.advance >>= fun _ => (Pure.pure [] : Parser (List Expr)))
        (Parser.advance >>= fun _ => Pure.pure []) :=
      .advance_bind (fun _ _ => (Steady.pure _).locked) fun _ _ _ _ => (Steady.pure _).locked
    exact hclose.mono (Nat.le_succ _) (Nat.le_succ _)
  · exact (Steady.bounded (.arguments hsub)).bind fun _ =>
      .expect_then (by decide) fun _ => .pure _

theorem Locked.continuation (c : Continuation) (left : Expr) (power : BindingPower)
    (t : Token) : Locked 1 b b' (c.rest sub left power t) (c.rest sub' left power t) := by
  cases c with
  | binary =>
      rw [Continuation.rest, Continuation.rest]
      cases BinaryOp.ofKind? t.kind with
      | none => exact .fail _
      | some op => exact ((hsub power).bind fun _ => .pure _).locked
  | call =>
      cases left with
      | ident callee => exact ((Steady.argumentsAndClose hsub).bind fun _ => .pure _).locked
      | literal | unary | binary | call => exact .fail _
  | subscript =>
      exact ((hsub .lowest).bind fun _ => .expect_then (by decide) fun _ => .pure _).locked
  | member =>
      refine Steady.locked (.currentKind_bind fun kind => ?_)
      split_ifs
      · exact (hsub .primary).bind fun _ => .pure _
      · have hfail : Steady (b + 1) (b' + 1)
            (Parser.advance >>= fun token =>
              (Parser.fail (.unexpected token "expected a member name after '.'") : Parser Expr))
            (Parser.advance >>= fun token =>
              Parser.fail (.unexpected token "expected a member name after '.'")) :=
          .advance_bind (fun _ _ => .fail _) fun _ _ _ _ => .fail _
        exact hfail.mono (Nat.le_succ _) (Nat.le_succ _)

theorem Steady.climb (power : BindingPower) (n n' : ℕ) (left : Expr) :
    Steady (min n (b + 1)) (min n' (b' + 1)) (Parser.climb sub power n left)
      (Parser.climb sub' power n' left) := by
  refine Steady.levels (Parser.climb sub power) (Parser.climb sub' power) (min · (b + 1))
    (min · (b' + 1)) (by simp) (by simp) (fun n n' ih left => ?_) n n' left
  rw [Parser.climb_succ_eq, Parser.climb_succ_eq]
  have hround : Steady (min n b + 1) (min n' b' + 1)
      (Parser.onNext power.continuation?
        (fun c t => c.1.rest sub left c.2 t >>= Parser.climb sub power n) (Pure.pure left))
      (Parser.onNext power.continuation?
        (fun c t => c.1.rest sub' left c.2 t >>= Parser.climb sub' power n')
        (Pure.pure left)) := by
    refine .onNext (fun s hs => ?_) (fun c t => ?_) (.pure left)
    · rw [BindingPower.continuation?, hs.operators]
      split_ifs <;> rfl
    · exact ((Locked.continuation hsub c.1 left c.2 t).mono (min_le_right n b)
        (min_le_right n' b')).bind fun e => (ih e).mono (by omega) (by omega)
  exact hround.mono (by omega) (by omega)

end

theorem Steady.expressionWithin (n n' : ℕ) (power : BindingPower) :
    Steady n n' (Parser.expressionWithin n power) (Parser.expressionWithin n' power) := by
  refine Steady.levels Parser.expressionWithin Parser.expressionWithin id id rfl rfl
    (fun n n' ih power => ?_) n n' power
  exact (Steady.operand ih).bind fun left => .bounded fun m m' => .climb ih power m m' left

theorem Steady.expression (power : BindingPower) :
    Steady b b' (Parser.expression power) (Parser.expression power) :=
  .bounded fun n n' => (Steady.expressionWithin n n' power).mono (min_le_left _ _)
    (min_le_left _ _)

theorem Steady.expression? : Steady b b' Parser.expression? Parser.expression? :=
  (Steady.expression .lowest).tentative

end ScriptFront
