import Mathlib.Data.List.Basic
import Mathlib.Data.Option.Basic
import ScriptFront.Proofs.SymbolTable.Growth
import ScriptFront.Proofs.Tree.Induction
import ScriptFront.Proofs.Diagnostic.Analyses
import ScriptFront.Proofs.Typing.Rules

/-!
# Typing expressions by the rules

The analysis of an expression types its literals, binds its names and then finds
its type. Where no declaration and no primitive type is missing it decides the
type of the expression: it reports nothing exactly if the rules give the
expression a type, and then finds that type.
-/
namespace ScriptFront

/-- Each literal has a type. -/
def TypeTable.HasLiterals (types : TypeTable) : Prop :=
  ∀ value : Literal, ∃ t, types.get? value.typeName = some t

theorem TypeTable.hasLiterals_primitives : primitives.HasLiterals := by
  intro value
  cases value with
  | int n => exact ⟨_, rfl⟩
  | float x => exact ⟨_, rfl⟩
  | bool b => exact ⟨_, rfl⟩
  | string s => exact ⟨_, rfl⟩

/-- The type that was found. -/
def Typed.Is {α : Type} (x : Typed α) (t : TypeId) : Prop := x.2 = some t

variable {Γ : TypingContext}

@[simp] theorem TypeTable.isNamed_iff {types : TypeTable} {name : String} {t : TypeId} :
    types.isNamed name t = true ↔ types.get? name = some t := by
  unfold isNamed
  exact beq_iff_eq

@[simp] theorem TypingContext.isNumeric_iff {t : TypeId} :
    Γ.types.isNumeric t = true ↔ Γ.Numeric t := by
  unfold TypeTable.isNumeric Numeric Named
  rw [Bool.or_eq_true, TypeTable.isNamed_iff, TypeTable.isNamed_iff]

@[simp] theorem Expr.snd_record (e : Expr) (type? : Option TypeId) :
    (e.record type?).2 = type? := by
  cases type? <;> rfl

/-! ## Names -/

/-- What binding a name leaves, if it stands for the symbol. -/
def Ident.BoundTo (i j : Ident) (s : SymbolId × Symbol) : Prop :=
  j = { i with type? := s.2.type?, symbol? := some s.1 }

theorem SymbolKind.isOrdered_iff {k : SymbolKind} :
    k.isOrdered = true ↔ k ∈ [localVariable, globalVariable] := by
  cases k <;> decide

theorem Ident.bind_decides (h : Γ.symbols.Complete) (preference : Preference) (i : Ident) :
    (i.bind Γ.symbols Γ.scope preference).Decides (BoundTo i) fun s =>
      Γ.Denotes preference i.name s.1 s.2 ∧ (s.2.kind ∈ [.localVariable, .globalVariable] →
        ¬ i.token.position < s.2.declaration.position) := by
  unfold Ident.bind
  cases hl : Γ.symbols.lookup? i.name preference Γ.scope with
  | none =>
      apply Reported.Decides.report
      rintro s ⟨hs, -⟩
      have := hs.found
      simp [hl] at this
  | some id =>
      obtain ⟨scope, hlocal⟩ := SymbolTable.exists_local?_of_lookup? hl
      obtain ⟨symbol, hsymbol⟩ := h.entry hlocal
      have hdenotes : ∀ s : SymbolId × Symbol,
          Γ.Denotes preference i.name s.1 s.2 ↔ s = (id, symbol) := by
        rintro ⟨id', symbol'⟩
        constructor
        · rintro ⟨hfound, hentry⟩
          simp_all
        · rintro ⟨⟩
          exact ⟨hl, hsymbol⟩
      simp only [hdenotes, hsymbol]
      by_cases ho : symbol.kind.isOrdered ∧ i.token.position < symbol.declaration.position
      · rw [if_pos ho]
        apply Reported.Decides.report
        rintro _ ⟨rfl, hs⟩
        exact hs (SymbolKind.isOrdered_iff.mp ho.1) ho.2
      · rw [if_neg ho]
        constructor
        · intro _
          refine ⟨(id, symbol), rfl, rfl, fun hk hlt => ho ⟨SymbolKind.isOrdered_iff.mpr hk, hlt⟩⟩
        · rintro _ ⟨rfl, -⟩
          exact ⟨rfl, rfl⟩

theorem Ident.valueType_decides {i j : Ident} {s : SymbolId × Symbol} (hj : i.BoundTo j s)
    (hs : Γ.symbols.symbol? s.1 = some s.2) (htype : ∃ t, s.2.type? = some t) :
    (j.valueType Γ.symbols Γ.initializing?).Decides (fun x t => x = some t) fun t =>
      s.2.kind ≠ .function ∧ Γ.initializing? ≠ some s.1 ∧ s.2.type? = some t := by
  subst hj
  unfold valueType
  simp only [Option.bind_some, hs]
  by_cases hk : s.2.kind = .function
  · rw [if_pos hk]
    exact .report fun t ht => ht.1 hk
  · rw [if_neg hk]
    by_cases hi : Γ.initializing? = some s.1
    · rw [if_pos hi]
      exact .report fun t ht => ht.2.1 hi
    · rw [if_neg hi]
      apply Reported.Decides.pure
      · intro t
        simp [hk, hi]
      · exact htype

/-! ## Operators -/

theorem Typing.unary_decides (op : UnaryOp) {operand? : Option TypeId} {t : TypeId}
    (ht : operand? = some t) (place : Token) :
    (Typing.unary Γ.types op operand? place).Decides (fun x u => x = some u) fun u =>
      op.Takes Γ t ∧ u = t := by
  subst ht
  have haccepts : op.accepts Γ.types t = true ↔ op.Takes Γ t := by
    cases op with
    | neg =>
        unfold UnaryOp.accepts
        rw [TypingContext.isNumeric_iff]
        exact ⟨.neg, fun h => by cases h; assumption⟩
    | not =>
        unfold UnaryOp.accepts
        rw [TypeTable.isNamed_iff]
        exact ⟨.not, fun h => by cases h; assumption⟩
  unfold Typing.unary
  by_cases h : op.accepts Γ.types t = true
  · simp only [h, if_true]
    apply Reported.Decides.pure
    · intro u
      simp [haccepts.mp h, eq_comm]
    · exact ⟨t, rfl⟩
  · simp only [h]
    exact .report fun u hu => h (haccepts.mpr hu.1)

/-- Nothing has members. -/
theorem Typing.member_decides {left? : Option TypeId} {t : TypeId} (ht : left? = some t)
    (dot : Token) :
    (Typing.member Γ.types left? dot).Decides (fun x u => x = some u) fun _ => False := by
  subst ht
  exact .report fun _ h => h

theorem BinaryOp.yields_of_result? {op : BinaryOp} {t u v : TypeId}
    (h : op.result? Γ.types t u = some v) : op.Yields Γ t u v := by
  cases op with
  | equal | unequal =>
      simp only [result?] at h
      split_ifs at h with htu
      subst htu
      exact .equality (by decide) h
  | less | greater | lessEquals | greaterEquals =>
      simp only [result?] at h
      split_ifs at h with htu
      obtain ⟨rfl, hn⟩ := htu
      exact .ordering (by decide) (TypingContext.isNumeric_iff.mp hn) h
  | and | or | xor =>
      simp only [result?, TypeTable.isNamed_iff] at h
      split_ifs at h with htu
      obtain ⟨ht, hu⟩ := htu
      obtain rfl : t = u := Option.some.inj (ht.symm.trans hu)
      obtain rfl : t = v := Option.some.inj h
      exact .connective (by decide) ht
  | add =>
      simp only [result?, TypeTable.isNamed_iff] at h
      split_ifs at h with hs htu
      · rw [h] at hs
        exact .concatenation h (hs.imp (fun h => (Option.some.inj h).symm)
          fun h => (Option.some.inj h).symm)
      · obtain ⟨rfl, hn⟩ := htu
        obtain rfl : t = v := Option.some.inj h
        exact .arithmetic (by decide) (TypingContext.isNumeric_iff.mp hn)
  | sub | mul | div =>
      simp only [result?] at h
      split_ifs at h with htu
      obtain ⟨rfl, hn⟩ := htu
      obtain rfl : t = v := Option.some.inj h
      exact .arithmetic (by decide) (TypingContext.isNumeric_iff.mp hn)
  | mod =>
      simp only [result?, TypeTable.isNamed_iff] at h
      split_ifs at h with htu
      obtain ⟨ht, hu⟩ := htu
      obtain rfl : t = u := Option.some.inj (ht.symm.trans hu)
      obtain rfl : t = v := Option.some.inj h
      exact .remainder ht
  | subscript | memberAccess => simp [result?] at h

theorem BinaryOp.result?_of_yields {op : BinaryOp} (hop : op ≠ .subscript) {t u v : TypeId}
    (h : op.Yields Γ t u v) : op.result? Γ.types t u = some v := by
  unfold result?
  cases h with
  | equality hmem hb =>
      unfold TypingContext.Named at hb
      simp only [List.mem_cons, List.not_mem_nil, or_false] at hmem
      rcases hmem with rfl | rfl <;> simp [hb]
  | ordering hmem hn hb =>
      unfold TypingContext.Named at hb
      simp only [List.mem_cons, List.not_mem_nil, or_false] at hmem
      rcases hmem with rfl | rfl | rfl | rfl <;> simp [hn, hb]
  | connective hmem hb =>
      unfold TypingContext.Named at hb
      simp only [List.mem_cons, List.not_mem_nil, or_false] at hmem
      rcases hmem with rfl | rfl | rfl <;> simp [hb]
  | concatenation hs htu =>
      unfold TypingContext.Named at hs
      rcases htu with rfl | rfl <;> simp [hs]
  | arithmetic hmem hn =>
      simp only [List.mem_cons, List.not_mem_nil, or_false] at hmem
      rcases hmem with rfl | rfl | rfl | rfl <;> simp [hn]
  | remainder hi =>
      unfold TypingContext.Named at hi
      simp [hi]
  | subscript => exact absurd rfl hop

/-- The result type of an operator between operands is what the rules yield. -/
theorem BinaryOp.result?_eq_some_iff {op : BinaryOp} (hop : op ≠ .subscript) {t u v : TypeId} :
    op.result? Γ.types t u = some v ↔ op.Yields Γ t u v :=
  ⟨yields_of_result?, result?_of_yields hop⟩

theorem Typing.subscript_decides (t u : TypeId) (place : Token) :
    (Typing.subscript Γ.types t u place).Decides (fun x v => x = some v) fun v =>
      BinaryOp.subscript.Yields Γ t u v := by
  have hyields : ∀ v, BinaryOp.subscript.Yields Γ t u v ↔
      Γ.types.element? t = some v ∧ Γ.types.get? "int" = some u := by
    intro v
    constructor
    · rintro (h | h | h | h | h | h | ⟨hv, hu⟩)
      case subscript => exact ⟨hv, hu⟩
      all_goals simp at h
    · rintro ⟨hv, hu⟩
      exact .subscript hv hu
  simp only [hyields]
  unfold Typing.subscript
  cases he : Γ.types.element? t with
  | none => exact .report (by simp)
  | some element =>
      by_cases hu : Γ.types.isNamed "int" u
      · simp only [hu, if_true]
        rw [TypeTable.isNamed_iff] at hu
        apply Reported.Decides.pure
        · simp [hu]
        · exact ⟨element, rfl⟩
      · simp only [hu]
        rw [TypeTable.isNamed_iff] at hu
        exact .report fun v hv => hu hv.2

theorem Typing.binary_decides {op : BinaryOp} {left? right? : Option TypeId} {t u : TypeId}
    (ht : left? = some t) (hu : right? = some u) (operator place : Token) :
    (Typing.binary Γ.types op left? right? operator place).Decides
      (fun x v => x = some v) (op.Yields Γ t u) := by
  subst ht hu
  unfold Typing.binary
  by_cases hop : op = .subscript
  · subst hop
    exact subscript_decides t u place
  · simp only [hop, if_false]
    unfold between
    have hiff := @BinaryOp.result?_eq_some_iff Γ op hop t u
    cases hr : op.result? Γ.types t u with
    | none =>
        apply Reported.Decides.report
        intro v hv
        have := hiff.mpr hv
        simp [hr] at this
    | some v =>
        apply Reported.Decides.pure
        · intro w
          rw [← hiff, hr]
        · exact ⟨v, rfl⟩

/-! ## Calls -/

/-- The types that were found for the expressions of a list. -/
def Typed.Are {α : Type} (xs : List (Typed α)) (ts : List TypeId) : Prop :=
  xs.map Prod.snd = ts.map some

theorem Typed.Are.unique {α : Type} {xs : List (Typed α)} {ts us : List TypeId}
    (h : Are xs ts) (k : Are xs us) : ts = us :=
  List.map_injective_iff.mpr (Option.some_injective _) (h.symm.trans k)

theorem Typed.Are.cons_decides {α : Type} {x : Typed α} {t : TypeId} {xs : List (Typed α)}
    {ts : List TypeId} (h : Are xs ts) (hx : x.Is t) :
    (pure (x :: xs) : Reported (List (Typed α))).Decides Are (· = t :: ts) := by
  have hall : Are (x :: xs) (t :: ts) := List.cons_eq_cons.mpr ⟨hx, h⟩
  apply Reported.Decides.pure
  · intro us
    exact ⟨fun hus => hus ▸ hall, fun hus => hus.unique hall⟩
  · exact ⟨_, hall⟩

/-- Arguments are in order if their types are those of the parameters, as far as
there are both. -/
theorem Typing.arguments_clean_iff {types : TypeTable} {index : ℕ} {args : List (Typed Expr)}
    {params : List (String × Option TypeId)} {ts us : List TypeId} (hargs : Typed.Are args ts)
    (hparams : params.map Prod.snd = us.map some) (hlen : args.length = params.length) :
    (Typing.arguments types index args params).diagnostics = [] ↔ ts = us := by
  unfold Typed.Are at hargs
  induction args generalizing index params ts us with
  | nil =>
      obtain rfl := List.length_eq_zero_iff.mp hlen.symm
      obtain rfl := List.map_eq_nil_iff.mp hargs.symm
      obtain rfl := List.map_eq_nil_iff.mp hparams.symm
      simp [Typing.arguments]
  | cons arg args ih =>
      obtain ⟨param, params, rfl⟩ := List.exists_cons_of_length_eq_add_one hlen.symm
      obtain ⟨t, ts, rfl, ht, hargs'⟩ := List.map_eq_cons_iff.mp hargs.symm
      obtain ⟨u, us, rfl, hu, hparams'⟩ := List.map_eq_cons_iff.mp hparams.symm
      obtain ⟨arg, actual?⟩ := arg
      obtain ⟨name, required?⟩ := param
      subst ht hu
      have hrest := @ih (index + 1) params ts us hargs'.symm hparams'.symm (by simpa using hlen)
      unfold Typing.arguments
      by_cases htu : t = u
      · simp [htu, hrest]
      · simp [htu]

theorem Typing.call_decides {callee i : Ident} {s : SymbolId × Symbol} (hc : i.BoundTo callee s)
    (hs : Γ.symbols.symbol? s.1 = some s.2) (htype : ∃ t, s.2.type? = some t)
    (hparams : ∃ us : List TypeId, s.2.params.map Prod.snd = us.map some)
    {args : List (Typed Expr)} {ts : List TypeId} (hargs : Typed.Are args ts) :
    (Typing.call Γ.types Γ.symbols callee args).Decides (fun x t => x = some t) fun t =>
      s.2.kind = .function ∧ s.2.params.map Prod.snd = ts.map some ∧ s.2.type? = some t := by
  subst hc
  unfold Typing.call
  simp only [Option.bind_some, hs]
  by_cases hk : s.2.kind = .function
  · rw [if_neg (not_not.mpr hk)]
    obtain ⟨us, hus⟩ := hparams
    by_cases hlen : args.length = s.2.params.length
    · rw [if_neg (not_not.mpr hlen)]
      have hclean := @arguments_clean_iff Γ.types 1 args s.2.params ts us hargs hus hlen
      constructor
      · intro h
        rw [Reported.diagnostics_bind, List.append_eq_nil_iff, hclean] at h
        obtain ⟨rfl, -⟩ := h
        obtain ⟨t, ht⟩ := htype
        exact ⟨t, ht, hk, hus, ht⟩
      · rintro t ⟨-, hts, ht⟩
        have heq : ts = us :=
          List.map_injective_iff.mpr (Option.some_injective _) (hts.symm.trans hus)
        rw [Reported.diagnostics_bind, hclean.mpr heq]
        exact ⟨rfl, ht⟩
    · rw [if_pos hlen]
      apply Reported.Decides.report
      rintro t ⟨-, hts, -⟩
      have hlength := congrArg List.length (hargs.trans hts.symm)
      exact hlen (by simpa using hlength)
  · rw [if_pos hk]
    exact .report fun t ht => hk ht.1

/-! ## Expressions -/

namespace Expr

/-- The whole analysis of an expression. -/
def analyzed (Γ : TypingContext) (e : Expr) : Reported (Typed Expr) :=
  (e.typeLiterals Γ.types).check Γ.types Γ.symbols Γ.scope Γ.initializing?

def analyzedAll (Γ : TypingContext) (es : List Expr) : Reported (List (Typed Expr)) := do
  let es ← bindNames.bindAll Γ.symbols Γ.scope (typeLiterals.typeAll Γ.types es)
  infer.inferAll Γ.types Γ.symbols Γ.initializing? es

variable {op : BinaryOp} {left right : Expr} {token : Token} {type? : Option TypeId}

theorem analyzed_unary (op : UnaryOp) (operand : Expr) (token : Token) (type? : Option TypeId) :
    (unary op operand token type?).analyzed Γ = (do
      let x ← operand.analyzed Γ
      let found? ← Typing.unary Γ.types op x.2 x.1.token
      return (unary op x.1 token type?).record found?) := by
  apply Reported.ext
  · rfl
  · simp [analyzed, check, typeLiterals, bindNames, infer]

theorem analyzed_binary (hop : op ≠ .memberAccess) :
    ((binary op left right token type?).analyzed Γ).Alike (do
      let x ← left.analyzed Γ
      let y ← right.analyzed Γ
      let found? ← Typing.binary Γ.types op x.2 y.2 token y.1.token
      return (binary op x.1 y.1 token type?).record found?) := by
  constructor
  · simp [analyzed, check, typeLiterals, bindNames, infer, hop]
  · simp [analyzed, check, typeLiterals, bindNames, infer, hop]
    tauto

theorem analyzed_member :
    (binary .memberAccess left right token type?).analyzed Γ = (do
      let x ← left.analyzed Γ
      let found? ← Typing.member Γ.types x.2 token
      let member := binary .memberAccess x.1 (right.typeLiterals Γ.types) token type?
      return member.record found?) := by
  apply Reported.ext
  · rfl
  · simp [analyzed, check, typeLiterals, bindNames, infer]

theorem analyzed_call (callee : Ident) (args : List Expr) (openParen : Token) :
    (call callee args openParen type?).analyzed Γ = (do
      let callee ← callee.bind Γ.symbols Γ.scope .function
      let xs ← analyzedAll Γ args
      let found? ← Typing.call Γ.types Γ.symbols callee xs
      return (call callee (xs.map Prod.fst) openParen type?).record found?) := by
  apply Reported.ext
  · rfl
  · simp [analyzed, analyzedAll, check, typeLiterals, bindNames, infer]

theorem analyzedAll_cons (e : Expr) (es : List Expr) :
    (analyzedAll Γ (e :: es)).Alike (do
      let x ← e.analyzed Γ
      let xs ← analyzedAll Γ es
      return x :: xs) := by
  constructor
  · rfl
  · simp [analyzed, analyzedAll, check, typeLiterals.typeAll, bindNames.bindAll, infer.inferAll]
    tauto

theorem record_decides {r : Reported (Option TypeId)} {P : TypeId → Prop}
    (hr : r.Decides (fun x t => x = some t) P) (e : Expr) :
    (r >>= fun found? => Pure.pure (e.record found?)).Decides Typed.Is P :=
  hr.bind_pure fun _ _ ht => (snd_record _ _).trans ht

section
variable (h : Γ.symbols.Complete)
include h

theorem analyzed_ident_decides (i : Ident) :
    ((ident i).analyzed Γ).Decides Typed.Is (HasType Γ (.ident i)) := by
  have heq : (ident i).analyzed Γ = (do
      let j ← i.bind Γ.symbols Γ.scope .value
      let found? ← j.valueType Γ.symbols Γ.initializing?
      return (ident j).record found?) := by
    apply Reported.ext
    · rfl
    · simp [analyzed, check, typeLiterals, bindNames, infer]
  rw [heq]
  refine ((i.bind_decides h .value).bind fun j s hj hs => record_decides
    (Ident.valueType_decides hj hs.1.entry (h.type hs.1.entry)) _).iff fun t => ?_
  constructor
  · intro ht
    cases ht with
    | name hs hk hplace hi ht => exact ⟨(_, _), ⟨hs, hplace⟩, hk, hi, ht⟩
  · rintro ⟨s, ⟨hs, hplace⟩, hk, hi, ht⟩
    exact .name hs hk hplace hi ht

omit h in
theorem analyzedAll_decides {es : List Expr}
    (ih : ∀ e ∈ es, (e.analyzed Γ).Decides Typed.Is (HasType Γ e)) :
    (analyzedAll Γ es).Decides Typed.Are (List.Forall₂ (HasType Γ) es) := by
  induction es with
  | nil =>
      apply Reported.Decides.pure
      · intro ts
        rw [List.forall₂_nil_left_iff]
        constructor
        · rintro rfl
          rfl
        · exact fun hts => hts.unique rfl
      · exact ⟨[], rfl⟩
  | cons e es ihs =>
      have hrest : (analyzedAll Γ es).Decides Typed.Are (List.Forall₂ (HasType Γ) es) :=
        ihs fun e he => ih e (List.mem_cons_of_mem _ he)
      refine Reported.Decides.congr (((ih e (by simp)).bind fun x t hx _ =>
        hrest.bind fun xs ts hxs _ => hxs.cons_decides hx).iff fun ts => ?_) (analyzedAll_cons e es)
      rw [List.forall₂_cons_left_iff]
      constructor
      · rintro ⟨t, ts', ht, hts, rfl⟩
        exact ⟨t, ht, ts', hts, rfl⟩
      · rintro ⟨t, ht, ts', hts, rfl⟩
        exact ⟨t, ts', ht, hts, rfl⟩

theorem analyzed_call_decides {callee : Ident} {args : List Expr} {openParen : Token}
    {type? : Option TypeId} (ih : ∀ e ∈ args, (e.analyzed Γ).Decides Typed.Is (HasType Γ e)) :
    ((call callee args openParen type?).analyzed Γ).Decides Typed.Is
      (HasType Γ (.call callee args openParen type?)) := by
  rw [analyzed_call]
  refine ((callee.bind_decides h .function).bind fun j s hj hs =>
    (analyzedAll_decides ih).bind fun xs ts hxs _ => record_decides
      (Typing.call_decides hj hs.1.entry (h.type hs.1.entry) (h.params hs.1.entry) hxs) _).iff
    fun t => ?_
  constructor
  · intro ht
    cases ht with
    | call hs hk hargs hparams ht =>
        exact ⟨(_, _), ⟨hs, by simp [hk]⟩, _, hargs, hk, hparams, ht⟩
  · rintro ⟨s, ⟨hs, -⟩, ts, hargs, hk, hparams, ht⟩
    exact .call hs hk hargs hparams ht

/-- The analysis of an expression reports nothing exactly if the expression has a
type, and finds this type. -/
theorem analyzed_decides (hl : Γ.types.HasLiterals) (e : Expr) :
    (e.analyzed Γ).Decides Typed.Is (HasType Γ e) := by
  induction e using tree_induction with
  | literal value token type? =>
      obtain ⟨t, ht⟩ := hl value
      apply Reported.Decides.pure
      · intro u
        constructor
        · intro hu
          cases hu with
          | literal hu => exact hu
        · exact .literal
      · exact ⟨t, ht⟩
  | ident i => exact analyzed_ident_decides h i
  | unary op operand token type? ih =>
      rw [analyzed_unary]
      refine (ih.bind fun x t hx _ =>
        record_decides (Typing.unary_decides op hx x.1.token) _).iff fun u => ?_
      constructor
      · intro hu
        cases hu with
        | unary hoperand hop => exact ⟨u, hoperand, hop, rfl⟩
      · rintro ⟨t, hoperand, hop, rfl⟩
        exact .unary hoperand hop
  | binary op left right token type? ihl ihr =>
      by_cases hop : op = .memberAccess
      · subst hop
        rw [analyzed_member]
        refine (ihl.bind fun x t hx _ =>
          record_decides (Typing.member_decides hx token) _).iff fun v => ?_
        constructor
        · intro hv
          cases hv with
          | binary _ _ hop =>
              cases hop with
              | equality hop | ordering hop | connective hop | arithmetic hop => simp at hop
        · rintro ⟨_, _, ⟨⟩⟩
      · refine Reported.Decides.congr ((ihl.bind fun x t hx _ => ihr.bind fun y u hy _ =>
          record_decides (Typing.binary_decides hx hy token y.1.token) _).iff fun v => ?_)
          (analyzed_binary hop)
        constructor
        · intro hv
          cases hv with
          | binary hleft hright hyields => exact ⟨_, hleft, _, hright, hyields⟩
        · rintro ⟨t, hleft, u, hright, hyields⟩
          exact .binary hleft hright hyields
  | call callee args openParen type? ih => exact analyzed_call_decides h ih

end

end Expr

end ScriptFront
