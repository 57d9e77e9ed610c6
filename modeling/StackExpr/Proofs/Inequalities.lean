import StackExpr.Proofs.Bodies
import StackExpr.Proofs.Equalities
import StackExpr.Proofs.Strictness

/-! Inequalities are negated equalities.

The tree of an inequality and that of a negated equality have one type and one evaluation. The code
differs, so what the two have in common is what their runs come to. -/
namespace StackExpr

section values

variable {a b : Value}

theorem Value.not_ofBool (p : Bool) : (ofBool p).not = .ok (ofBool !p) := by cases p <;> rfl

/-- Two numbers are unequal if they are not equal, also where they are in no order. -/
theorem Value.compare_notEqual : a.compare .notEqual b = a.compare .equal b >>= Value.not := by
  simp only [compare]
  cases a.order b with
  | error k => rfl
  | ok o => exact (not_ofBool _).symm

end values

namespace Typed

variable {l r : Typed} {mode : OperandMode}

/-- Whatever the operands are compared by, equality and inequality answer the opposite. -/
theorem eval_not_compare (tag tag' tag'' : Tag) :
    (not (compare .equal mode l r tag) tag').eval = (compare .notEqual mode l r tag'').eval := by
  have hopposite (p : Bool) : Eval.lift (Value.ofBool (p != (Comparison.equal == .notEqual))).not =
      (return .ofBool (p != (Comparison.notEqual == .notEqual)) : Eval Value) := by
    cases p <;> rfl
  rw [eval]
  -- Numbers and booleans may fail to compare, which references and checks for `null` cannot.
  by_cases hm : mode = .nullCheck
  · subst hm
    rw [eval_compare_nullCheck, eval_compare_nullCheck]
    simp only [bind_assoc, pure_bind, hopposite]
  by_cases hr : mode = .reference
  · subst hr
    rw [eval, eval]
    simp only [bind_assoc, pure_bind, hopposite]
  · rw [eval_compare_numbers hr hm, eval_compare_numbers hr hm]
    simp only [bind_assoc, Value.compare_notEqual, Eval.lift_bind]

/-- The tree with an inequality under its conversions written as a negated equality. -/
def negated : Typed → Typed
  | .compare .notEqual mode l r tag => .not (.compare .equal mode l r tag) tag
  | .convert e c tag => .convert e.negated c tag
  | e => e

theorem tag_negated (e : Typed) : e.negated.tag = e.tag := by
  cases e with
  | compare op mode l r tag => cases op <;> rfl
  | _ => rfl

theorem type_negated (e : Typed) : e.negated.type = e.type := congrArg Tag.type e.tag_negated

theorem negated_through (e : Typed) (steps : List Conversion) :
    (e.through steps).negated = e.negated.through steps := by
  induction steps generalizing e with
  | nil => rfl
  | cons c rest ih =>
    have hstep : (e.step c).negated = e.negated.step c := by
      rw [step, step, span, span, tag_negated]
      rfl
    exact (ih (e.step c)).trans (congrArg (through · rest) hstep)

theorem assignTo?_negated (target : Ty) (e : Typed) :
    e.negated.assignTo? target = (e.assignTo? target).map negated := by
  rw [assignTo?, assignTo?, type_negated, Option.map_map]
  congr 1
  funext steps
  exact (negated_through e steps).symm

/-- A tree with its inequality written as a negated equality evaluates alike. -/
theorem eval_negated (e : Typed) : e.negated.eval = e.eval := by
  cases e with
  | compare op mode l r tag =>
    cases op with
    | notEqual => exact eval_not_compare ..
    | _ => rfl
  | convert e c tag => rw [negated, eval, eval, eval_negated e]
  | _ => rfl

end Typed

namespace Check

variable {scope : Scope} {hint hint' : Hint}

/-- An inequality is accepted where the negated equality is, and to a tree that differs in this
only. -/
theorem agrees_inequality (l r : Expr) (extent span : Span) :
    Agrees Typed.negated (expr scope hint (.binary .notEqual l r extent span))
      (expr scope hint' (.unary .not (.binary .equal l r extent span) extent span)) := by
  have hnot : expr scope hint' (.unary .not (.binary .equal l r extent span) extent span) = (do
      let a ← expr scope .none l
      let b ← expr scope .none r
      let e ← Typed.ofBinary .equal a b extent
      Typed.ofUnary .not e extent) := by
    rw [expr, expr_binary_eq (by decide)]
    · simp only [bind_assoc]
    all_goals nofun
  rw [hnot, expr_binary_eq (by decide)]
  -- The operands are checked alike, without a hint; the two forms part at the operator.
  apply (Agrees.refl (expr scope .none l)).bind
  intro a
  apply (Agrees.refl (expr scope .none r)).bind
  intro b
  dsimp only [id]
  rw [Typed.ofBinary_equality (by decide), Typed.ofBinary_equality (by decide)]
  cases Coercion.equality? .looseEquality a.type b.type with
  | none => exact .error rfl
  | some c => exact .ok rfl

theorem agrees_body_negated (l r : Expr) (extent span : Span) (returns : Option TypeExpr) :
    Agrees (Prod.map Typed.negated id) (body scope (.binary .notEqual l r extent span) returns)
      (body scope (.unary .not (.binary .equal l r extent span) extent span) returns) := by
  cases returns with
  | none =>
    apply (agrees_inequality l r extent span).bind
    intro typed
    exact .ok (Prod.ext rfl (Typed.type_negated typed).symm)
  | some written =>
    simp only [body]
    cases written.resolve with
    | error bad => exact .error rfl
    | ok type =>
      have hfit : Agrees Typed.negated (exprTo scope type (.place .result)
          (.binary .notEqual l r extent span)) (exprTo scope type (.place .result)
          (.unary .not (.binary .equal l r extent span) extent span)) := by
        apply agrees_fit_of _ (Typed.assignTo?_negated type) rfl (agrees_inequality l r extent span)
        cases type <;> rfl
      apply hfit.bind
      intro typed
      exact .ok rfl

end Check

/-- Wherever its code stands, it takes a machine that holds a state to an outcome: a value more on
its stack and a state, or a fault. -/
def Typed.ComesTo (vars : List Local) (e : Typed) (st : EvalState)
    (outcome : Except FaultKind (Value × EvalState)) : Prop :=
  ∀ (s : Sequence) (free : Nat) (es : EmitState) (σ : List Value), s.Hosts vars free →
    free ≤ es.nextLocal → (Emit.expr .default e es).2.Within s →
      s.Runs vars (Emit.expr .default e es).1 σ st outcome (· :: σ)

/-- The code of a tree comes to what its evaluation does. -/
theorem Typed.comesTo_eval {vars : List Local} {u : Unfinished} {st : EvalState} {e : Typed}
    (hw : e.unplaced.WellTyped false vars) (hst : st.Sound false vars u) :
    e.ComesTo vars st (e.unplaced.eval st) := by
  intro s free es σ hs hfree
  rw [← Emit.expr_unplaced]
  exact fun hwithin => compiles_tree Options.known_default hs _ hw es u σ st hfree hwithin hst

/-- Units that end alike: with one result and the same variables over stores that look the same, or
with faults of one kind. -/
def Compiled.EndsLike (c c' : Compiled) : Prop :=
  (∃ x x', c.sequence.Answers (.ok x) ∧ c'.sequence.Answers (.ok x') ∧ x.result = x'.result ∧
    x.locals = x'.locals ∧ x.store.Alike x'.store) ∨
  ∃ f f', c.sequence.Answers (.error f) ∧ c'.sequence.Answers (.error f') ∧
    f.fault.kind = f'.fault.kind

/-- Units that evaluate alike end alike. -/
theorem TypedUnit.endsLike {t t' : TypedUnit} (ht : t.WellTyped false) (ht' : t'.WellTyped false)
    (h : t'.eval = t.eval) :
    Compiled.EndsLike ⟨t.name, t.resultType, t.sequence .default⟩
      ⟨t'.name, t'.resultType, t'.sequence .default⟩ := by
  have hrun := answers_sequence Options.known_default ht
  have hrun' := answers_sequence Options.known_default ht'
  rw [h] at hrun'
  cases he : t.eval with
  | ok r =>
    rw [he] at hrun hrun'
    obtain ⟨store, hanswers, halike⟩ := hrun
    obtain ⟨store', hanswers', halike'⟩ := hrun'
    exact .inl ⟨_, _, hanswers, hanswers', rfl, rfl, halike.trans halike'.symm⟩
  | error k =>
    rw [he] at hrun hrun'
    obtain ⟨f, hanswers, hk⟩ := hrun
    obtain ⟨f', hanswers', hk'⟩ := hrun'
    exact .inr ⟨f, f', hanswers, hanswers', hk.trans hk'.symm⟩

theorem Check.wellTyped_unplaced {scope : Scope} {hint : Hint} {e : Expr} {t : Typed}
    (h : expr scope hint e = .ok t) : t.unplaced.WellTyped false scope.vars := by
  have hvars : scope.unplaced.vars = scope.vars := by
    simp [Scope.vars, Scope.unplaced, LocalDecl.unplaced]
  rw [← hvars]
  exact wellTyped_expr e.plain hint (absurd · Bool.false_ne_true)
    ((agrees_expr e (.refl hint)).ok_left h)

/-- Only the check decides whether a unit is compiled. -/
theorem exists_compile_iff {o : Options} {u : SourceUnit} :
    (∃ c, compile o u = .ok c) ↔ ∃ t, Check.unit u.plain = .ok t := by
  constructor
  · rintro ⟨c, hc⟩
    obtain ⟨t, ht, -⟩ := compile_eq_ok (compile_plain_eq_ok.mpr hc)
    exact ⟨t, ht⟩
  · rintro ⟨t, ht⟩
    exact ⟨_, compile_plain_eq_ok.mp (compile_of_check ht)⟩

section units

variable {l r e e' : Expr} (he : e.plain = (Expr.ofBinary .notEqual l r).plain)
  (he' : e'.plain = (Expr.ofUnary .not (.ofBinary .equal l r)).plain)

namespace Check

variable {scope : Scope} {hint : Hint} {t t' : Typed}

theorem comesTo_of_negated {u : Unfinished} {st : EvalState} (ht : expr scope hint e = .ok t)
    (ht' : expr scope hint e' = .ok t') (h : t'.unplaced = t.unplaced.negated)
    (hst : st.Sound false scope.vars u) :
    ∃ outcome, t.ComesTo scope.vars st outcome ∧ t'.ComesTo scope.vars st outcome := by
  have heval : t'.unplaced.eval = t.unplaced.eval := by rw [h, Typed.eval_negated]
  refine ⟨t.unplaced.eval st, Typed.comesTo_eval (wellTyped_unplaced ht) hst, ?_⟩
  rw [← heval]
  exact Typed.comesTo_eval (wellTyped_unplaced ht') hst

include he he'

theorem agrees_plain_inequality (scope : Scope) (hint : Hint) :
    Agrees Typed.negated (expr scope hint e.plain) (expr scope hint e'.plain) := by
  rw [he, he']
  exact agrees_inequality l.plain r.plain .origin .origin

theorem exists_inequality (scope : Scope) (hint : Hint) :
    (∃ t, expr scope hint e = .ok t) ↔ ∃ t', expr scope hint e' = .ok t' := by
  calc
    (∃ t, expr scope hint e = .ok t)
    _ ↔ ∃ t, expr scope.unplaced hint e.plain = .ok t := (agrees_expr e (.refl hint)).exists_ok
    _ ↔ ∃ t', expr scope.unplaced hint e'.plain = .ok t' :=
      (agrees_plain_inequality he he' scope.unplaced hint).exists_ok
    _ ↔ ∃ t', expr scope hint e' = .ok t' := (agrees_expr e' (.refl hint)).exists_ok.symm

/-- Up to places the tree of a negated equality is that of the inequality with its negation written
out. -/
theorem unplaced_inequality (ht : expr scope hint e = .ok t) (ht' : expr scope hint e' = .ok t') :
    t'.unplaced = t.unplaced.negated := by
  have hplain := (agrees_expr e (.refl hint)).ok_left ht
  have hplain' := (agrees_expr e' (.refl hint)).ok_left ht'
  have hnegated := (agrees_plain_inequality he he' scope.unplaced hint).ok_left hplain
  exact Except.ok.inj (hplain'.symm.trans hnegated)

theorem agrees_unit_inequality (u : SourceUnit) :
    Agrees (fun t => { t with body := t.body.negated }) (unit { u with body := e }.plain)
      (unit { u with body := e' }.plain) := by
  apply (Agrees.refl (declarations .empty u.plain.declarations)).bind
  rintro ⟨is, scope⟩
  have hbody : Agrees (Prod.map Typed.negated id) (body scope e.plain u.plain.returns)
      (body scope e'.plain u.plain.returns) := by
    rw [he, he']
    exact agrees_body_negated l.plain r.plain .origin .origin u.plain.returns
  apply hbody.bind
  rintro ⟨typed, type⟩
  exact .ok rfl

end Check

include he he' in
theorem endsLike_inequality {u : SourceUnit} {c c' : Compiled}
    (hc : compile .default { u with body := e } = .ok c)
    (hc' : compile .default { u with body := e' } = .ok c') :
    c.resultType = c'.resultType ∧ c.EndsLike c' := by
  obtain ⟨t, ht, rfl⟩ := compile_eq_ok (compile_plain_eq_ok.mpr hc)
  obtain ⟨t', ht', rfl⟩ := compile_eq_ok (compile_plain_eq_ok.mpr hc')
  cases ht'.symm.trans ((Check.agrees_unit_inequality he he' u).ok_left ht)
  refine ⟨rfl, ?_⟩
  apply TypedUnit.endsLike (Check.wellTyped_unit nofun ht) (Check.wellTyped_unit nofun ht')
  simp only [TypedUnit.eval, Typed.eval_negated]

end units

/-- An inequality and a negated equality are accepted in the same scopes, have one type, and their
codes take a machine from the same state to the same outcome. A unit with one of them for its body
is accepted if it is with the other, and ends alike. Strict operators for loose ones change nothing,
wherever they stand. -/
theorem inequality_negates_equality :
    (∀ l r e e' : Expr, e.plain = (Expr.ofBinary .notEqual l r).plain →
      e'.plain = (Expr.ofUnary .not (.ofBinary .equal l r)).plain →
      (∀ scope hint,
        ((∃ t, Check.expr scope hint e = .ok t) ↔ ∃ t', Check.expr scope hint e' = .ok t') ∧
        ∀ t t', Check.expr scope hint e = .ok t → Check.expr scope hint e' = .ok t' →
          t.type = t'.type ∧ ∀ unfinished st, st.Sound false scope.vars unfinished →
            ∃ outcome, t.ComesTo scope.vars st outcome ∧ t'.ComesTo scope.vars st outcome) ∧
      ∀ u : SourceUnit,
        ((∃ c, compile .default { u with body := e } = .ok c) ↔
          ∃ c', compile .default { u with body := e' } = .ok c') ∧
        ∀ c c', compile .default { u with body := e } = .ok c →
          compile .default { u with body := e' } = .ok c' →
          c.resultType = c'.resultType ∧ c.EndsLike c') ∧
    ∀ o (u u' : SourceUnit), u.plain.loose = u'.plain.loose →
      (compile o u).mapError CompileError.kind = (compile o u').mapError CompileError.kind := by
  constructor
  · intro l r e e' he he'
    refine ⟨fun scope hint => ⟨Check.exists_inequality he he' scope hint, ?_⟩,
      fun u => ⟨?_, fun c c' hc hc' => endsLike_inequality he he' hc hc'⟩⟩
    · intro t t' ht ht'
      have hnegated := Check.unplaced_inequality he he' ht ht'
      refine ⟨?_, fun unfinished st hst => Check.comesTo_of_negated ht ht' hnegated hst⟩
      rw [← Typed.type_unplaced t', hnegated, Typed.type_negated, Typed.type_unplaced]
    · rw [exists_compile_iff, exists_compile_iff]
      exact (Check.agrees_unit_inequality he he' u).exists_ok
  · intro o u u' h
    rw [← compile_plain, ← compile_loose, h, compile_loose, compile_plain]

/-- `let n: Integer = 5; (n = 7) != null`, and with `!(... == null)` and `!==` -/
theorem assigned_unequal_to_null :
    let s := Span.origin
    let n := Expr.ofAssign .set (.var "n" s) (.int 7 s)
    let unequal := Expr.ofBinary .notEqual n (.null s)
    let negated := Expr.ofUnary .not (.ofParen (.ofBinary .equal n (.null s)))
    let strict := Expr.ofBinary .strictNotEqual n (.null s)
    let u (body : Expr) : SourceUnit :=
      ⟨"assigned", [⟨"n", s, some (.simple "Integer" s), some (.int 5 s), s⟩], body, none⟩
    let scope := Scope.empty.push "n" (.boxed .int) s
    (∃ t t' outcome, Check.expr scope .none unequal = .ok t ∧
      Check.expr scope .none negated = .ok t' ∧
      t.ComesTo scope.vars ⟨[("n", .null)], .empty⟩ outcome ∧
      t'.ComesTo scope.vars ⟨[("n", .null)], .empty⟩ outcome) ∧
    ∃ c c', compile .default (u unequal) = .ok c ∧ compile .default (u negated) = .ok c' ∧
      c.EndsLike c' ∧ compile .default (u strict) = .ok c := by
  intro s n unequal negated strict u scope
  have hst : EvalState.Sound false scope.vars .none ⟨[("n", .null)], .empty⟩ := by
    refine ⟨rfl, ?_, nofun, nofun, Nat.le_refl 0⟩
    intro x hx
    cases List.mem_singleton.mp hx
    exact ⟨.null, rfl, .inl rfl, Store.grounded_null⟩
  have hunequal : unequal.plain = (Expr.ofBinary .notEqual n (.null s)).plain := rfl
  have hnegated : negated.plain = (Expr.ofUnary .not (.ofBinary .equal n (.null s))).plain := rfl
  obtain ⟨hopposite, hloose⟩ := inequality_negates_equality
  obtain ⟨hexpr, hunit⟩ := hopposite n (.null s) unequal negated hunequal hnegated
  obtain ⟨haccepted, hruns⟩ := hexpr scope .none
  obtain ⟨hcompiled, hends⟩ := hunit (u unequal)
  constructor
  · obtain ⟨t, ht⟩ : ∃ t, Check.expr scope .none unequal = .ok t := ⟨_, rfl⟩
    obtain ⟨t', ht'⟩ := haccepted.mp ⟨t, ht⟩
    obtain ⟨outcome, houtcome⟩ := (hruns t t' ht ht').2 .none _ hst
    exact ⟨t, t', outcome, ht, ht', houtcome⟩
  · obtain ⟨typed, htyped⟩ : ∃ typed, Check.unit (u unequal) = .ok typed := ⟨_, rfl⟩
    have hc := compile_of_check (o := .default) htyped
    obtain ⟨c', hc'⟩ := hcompiled.mp ⟨_, hc⟩
    refine ⟨_, c', hc, hc', (hends _ c' hc hc').2, ?_⟩
    have hstrict := hloose .default (u strict) (u unequal) rfl
    rw [hc] at hstrict
    exact mapError_eq_ok.mp hstrict

end StackExpr
