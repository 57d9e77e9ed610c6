import StackExpr.Proofs.Execution

/-! Which operands of an equality run.

Both do, the left one first and each once, unless one of them has the type of `null`: then only the
other one does. -/
namespace StackExpr

/-- Wherever its code stands, it takes a machine that holds one state to a machine that holds
another, with a value more on its stack. -/
def Typed.Executes (vars : List Local) (e : Typed) (st : EvalState) (v : Value)
    (st' : EvalState) : Prop :=
  ∀ (s : Sequence) (free : Nat) (es : EmitState) (σ : List Value), s.Hosts vars free →
    free ≤ es.nextLocal → (Emit.expr .default e es).2.Within s →
      s.Runs vars (Emit.expr .default e es).1 σ st (.ok (v, st')) (· :: σ)

namespace Typed

variable {vars : List Local} {u : Unfinished} {st st' st₁ : EvalState} {e l r : Typed}
  {v a b : Value} {op : Comparison} {mode : OperandMode} {tag : Tag}

theorem executes_of_eval (hw : e.WellTyped false vars)
    (hst : (vars.map (·.name)).Nodup → st.Sound false vars u) (h : e.eval st = .ok (v, st')) :
    e.Executes vars st v st' := by
  intro s free es σ hs hfree hwithin
  rw [← h]
  exact compiles_tree Options.known_default hs e hw es u σ st hfree hwithin (hst hs.names)

/-- The second of two trees starts where the first one ended. -/
theorem executes_of_eval_both (hl : l.WellTyped false vars) (hr : r.WellTyped false vars)
    (hst : st.Sound false vars u) (ha : l.eval st = .ok (a, st₁)) (hb : r.eval st₁ = .ok (b, st')) :
    l.Executes vars st a st₁ ∧ r.Executes vars st₁ b st' := by
  refine ⟨executes_of_eval hl (fun _ => hst) ha, executes_of_eval (u := u) hr (fun hn => ?_) hb⟩
  exact (leads_eval hn hl hst ha).1.sound

/-- A literal has no effect. -/
theorem executes_constant (d : Constant) (tag : Tag) (st : EvalState) :
    (constant d tag).Executes vars st d.value st := by
  intro s free es σ _ _ hwithin
  rw [Emit.expr] at hwithin ⊢
  exact Sequence.runs_constant d hwithin

theorem eval_compare_eq_ok (hm : mode ≠ .nullCheck)
    (h : (compare op mode l r tag).eval st = .ok (v, st')) :
    ∃ a b st₁, l.eval st = .ok (a, st₁) ∧ r.eval st₁ = .ok (b, st') := by
  by_cases hr : mode = .reference
  · subst hr
    rw [eval] at h
    obtain ⟨a, st₁, ha, h⟩ := Eval.ok_of_bind h
    obtain ⟨b, st₂, hb, h⟩ := Eval.ok_of_bind h
    cases h
    exact ⟨a, b, st₁, ha, hb⟩
  · rw [eval_compare_numbers hr hm] at h
    obtain ⟨a, st₁, ha, h⟩ := Eval.ok_of_bind h
    obtain ⟨b, st₂, hb, h⟩ := Eval.ok_of_bind h
    obtain ⟨-, rfl⟩ := Eval.ok_of_lift h
    exact ⟨a, b, st₁, ha, hb⟩

theorem eval_nullCheck_eq_ok (h : (compare op .nullCheck l r tag).eval st = .ok (v, st')) :
    ∃ a, (if l.type.isNull then r else l).eval st = .ok (a, st') := by
  rw [eval_compare_nullCheck] at h
  obtain ⟨a, st₁, ha, h⟩ := Eval.ok_of_bind h
  cases h
  exact ⟨a, ha⟩

end Typed

namespace Coercion

variable {category : Category} {l r : Ty} {c : Coercion}

/-- Only a check for `null` has an operand of that type, and it converts neither operand. -/
theorem mode_equality? (h : equality? category l r = some c) :
    c.mode ≠ .nullCheck ∧ l ≠ .null ∧ r ≠ .null ∨
      c.mode = .nullCheck ∧ c.left = [] ∧ c.right = [] ∧ (l = .null ∨ r = .null) := by
  unfold equality? at h
  split at h
  · next hn =>
    obtain ⟨hl, hr⟩ := Bool.and_eq_true_iff.mp hn
    simp only [numeric?, bind, Option.bind_eq_some_iff, pure, Option.some.injEq] at h
    obtain ⟨_, -, _, -, k, -, _, -, _, -, rfl⟩ := h
    refine .inl ⟨OperandMode.noConfusion, ?_, ?_⟩
    · rintro rfl
      cases hl
    · rintro rfl
      cases hr
  split at h
  · next hb =>
    obtain ⟨hl, hr⟩ := Bool.and_eq_true_iff.mp hb
    simp only [boolean?, bind, Option.bind_eq_some_iff, pure, Option.some.injEq] at h
    obtain ⟨_, -, _, -, rfl⟩ := h
    refine .inl ⟨OperandMode.noConfusion, ?_, ?_⟩
    · rintro rfl
      cases hl
    · rintro rfl
      cases hr
  split at h
  · next hnull =>
    simp only [Option.ite_none_left_eq_some, Option.some.injEq] at h
    obtain ⟨-, rfl⟩ := h
    exact .inr ⟨rfl, rfl, rfl, by simpa [Ty.isNull] using hnull⟩
  · next hnull =>
    simp only [Option.ite_none_right_eq_some, Option.some.injEq] at h
    obtain ⟨-, rfl⟩ := h
    simp only [Ty.isNull, Bool.or_eq_true, beq_iff_eq, not_or] at hnull
    exact .inl ⟨OperandMode.noConfusion, hnull⟩

end Coercion

namespace Check

variable {scope : Scope} {hint : Hint} {op : BinaryOp} {l r : Expr} {extent span : Span}
  {typed : Typed}

/-- An equality that passes the check is a comparison of its operands. -/
theorem expr_equality (hop : op ∈ [.equal, .notEqual, .strictEqual, .strictNotEqual])
    (h : expr scope hint (.binary op l r extent span) = .ok typed) :
    ∃ tl tr category c, expr scope .none l = .ok tl ∧ expr scope .none r = .ok tr ∧
      Coercion.equality? category tl.type tr.type = some c ∧
      typed = .compare op.comparison c.mode (tl.through c.left) (tr.through c.right)
        ⟨c.result, extent⟩ := by
  obtain ⟨-, tl, tr, hl, hr, h⟩ := binary_eq_ok h
  rcases Typed.ofBinary_eq_ok h with ⟨rfl, -⟩ | ⟨rfl, -⟩ | ⟨-, category, c, hcat, hc, rfl⟩
  · simp at hop
  · simp at hop
  · have hfamily : category = .looseEquality ∨ category = .strictEquality := by
      simp only [List.mem_cons, List.not_mem_nil, or_false] at hop
      rcases hop with rfl | rfl | rfl | rfl <;> cases hcat <;> simp
    have he : Coercion.equality? category tl.type tr.type = some c := by
      rcases hfamily with rfl | rfl <;> exact hc
    refine ⟨tl, tr, category, c, hl, hr, he, ?_⟩
    obtain ⟨hcategory, -⟩ := Coercion.equality?_eq_some he
    rw [Typed.ofCoercion, hcategory]
    rcases hfamily with rfl | rfl <;> rfl

end Check

/-- An equality that succeeds leaves the variables as its operands leave them, run from left to
right and once, provided that an operand of the type of `null` changes nothing: it is not run at
all. -/
theorem equality_runs_operands {scope : Scope} {hint : Hint} {op : BinaryOp} {l r : Expr}
    {extent span : Span} {typed : Typed}
    (hop : op ∈ [.equal, .notEqual, .strictEqual, .strictNotEqual])
    (h : Check.expr scope hint (.binary op l r extent span) = .ok typed) :
    ∃ tl tr ls rs mode tag, Check.expr scope .none l = .ok tl ∧ Check.expr scope .none r = .ok tr ∧
      typed = .compare op.comparison mode (tl.through ls) (tr.through rs) tag ∧
      ∀ u st v st', st.Sound false scope.vars u → typed.eval st = .ok (v, st') →
        typed.Executes scope.vars st v st' ∧
        (tl.type = .null → ∃ b, (tr.through rs).Executes scope.vars st b st') ∧
        (tl.type ≠ .null → tr.type = .null → ∃ a, (tl.through ls).Executes scope.vars st a st') ∧
        ((tl.type = .null → ∃ a, (tl.through ls).Executes scope.vars st a st) →
          (tl.type ≠ .null → tr.type = .null → ∃ b st₂,
            (tr.through rs).Executes scope.vars st' b st₂ ∧ st₂.bindings = st'.bindings) →
          ∃ a b st₁ st₂, (tl.through ls).Executes scope.vars st a st₁ ∧
            (tr.through rs).Executes scope.vars st₁ b st₂ ∧ st₂.bindings = st'.bindings) := by
  obtain ⟨tl, tr, category, c, hl, hr, hc, rfl⟩ := Check.expr_equality hop h
  refine ⟨tl, tr, c.left, c.right, c.mode, _, hl, hr, rfl, fun u st v st' hst hv => ?_⟩
  have hw : Typed.WellTyped false scope.vars _ := Check.wellTyped_expr _ hint nofun h
  have ⟨hwl, hwr, _⟩ := hw
  refine ⟨Typed.executes_of_eval hw (fun _ => hst) hv, ?_⟩
  rcases Coercion.mode_equality? hc with ⟨hm, hnl, hnr⟩ | ⟨hm, hcl, hcr, hnull⟩
  · obtain ⟨a, b, st₁, ha, hb⟩ := Typed.eval_compare_eq_ok hm hv
    obtain ⟨hxl, hxr⟩ := Typed.executes_of_eval_both hwl hwr hst ha hb
    exact ⟨fun h => absurd h hnl, fun _ h => absurd h hnr,
      fun _ _ => ⟨a, b, st₁, st', hxl, hxr, rfl⟩⟩
  · rw [hm] at hv
    obtain ⟨a, ha⟩ := Typed.eval_nullCheck_eq_ok hv
    rw [hcl] at hwl ha ⊢
    rw [hcr] at hwr ha ⊢
    by_cases hnl : tl.type = .null
    · have hx : tr.Executes scope.vars st a st' := by
        refine Typed.executes_of_eval hwr (fun _ => hst) ?_
        simpa [Typed.through, Ty.isNull, hnl] using ha
      refine ⟨fun _ => ⟨a, hx⟩, fun h => absurd hnl h, fun hskip _ => ?_⟩
      obtain ⟨b, hb⟩ := hskip hnl
      exact ⟨b, a, st, st', hb, hx, rfl⟩
    · have hx : tl.Executes scope.vars st a st' := by
        refine Typed.executes_of_eval hwl (fun _ => hst) ?_
        simpa [Typed.through, Ty.isNull, hnl] using ha
      refine ⟨fun h => absurd h hnl, fun _ _ => ⟨a, hx⟩, fun _ hskip => ?_⟩
      obtain ⟨b, st₂, hb, hsame⟩ := hskip hnl (hnull.resolve_left hnl)
      exact ⟨a, b, st', st₂, hx, hb, hsame⟩

/-- `(n = 7) == null`. -/
theorem equality_runs_operands_literal :
    let scope := Scope.empty.push "n" (.boxed .int) .origin
    ∃ tl tr a b st₁ st₂,
      Check.expr scope .none (.ofAssign .set (.var "n" .origin) (.int 7 .origin)) = .ok tl ∧
      Check.expr scope .none (.null .origin) = .ok tr ∧
      tl.Executes scope.vars ⟨[("n", .null)], .empty⟩ a st₁ ∧ tr.Executes scope.vars st₁ b st₂ ∧
      st₂.bindings = [("n", .boxed (.int 7))] := by
  intro scope
  obtain ⟨typed, h⟩ : ∃ typed, Check.expr scope .none (.ofBinary .equal
    (.ofAssign .set (.var "n" .origin) (.int 7 .origin)) (.null .origin)) = .ok typed := ⟨_, rfl⟩
  obtain ⟨tl, tr, ls, rs, mode, tag, hl, hr, htyped, hrun⟩ :=
    equality_runs_operands (by decide) h
  cases hl
  cases hr
  cases h
  injection htyped with _ _ hls hrs _
  rw [← hls, ← hrs] at hrun
  have hst : EvalState.Sound false scope.vars .none ⟨[("n", .null)], .empty⟩ := by
    refine ⟨rfl, ?_, nofun, nofun, Nat.le_refl 0⟩
    intro x hx
    cases List.mem_singleton.mp hx
    exact ⟨.null, rfl, .inl rfl, Store.grounded_null⟩
  obtain ⟨-, -, -, hboth⟩ := hrun .none _ _ _ hst rfl
  obtain ⟨a, b, st₁, st₂, hl, hr, hst₂⟩ := hboth nofun
    fun _ _ => ⟨_, _, Typed.executes_constant .null _ _, rfl⟩
  exact ⟨_, _, a, b, st₁, st₂, rfl, rfl, hl, hr, hst₂⟩

/-- `((x = 5) > 0 ? null : null) == null`, with `x` declared as zero. -/
def nullBranches : SourceUnit :=
  let o := Span.origin
  let x := Expr.var "x" o
  ⟨"nullBranches", [⟨"x", o, some (.simple "int" o), some (.int 0 o), o⟩],
    .ofBinary .equal (.ofConditional (.ofBinary .greater (.ofAssign .set x (.int 5 o)) (.int 0 o))
      (.null o) (.null o)) (.null o), none⟩

/-- The left operand would set the variable to five, and the comparison leaves it zero. -/
theorem equality_skips_operand :
    ∃ t tl tr tag c x a b st₁ st₂, Check.unit nullBranches = .ok t ∧
      t.body = .compare .equal .nullCheck tl tr tag ∧
      compile .default nullBranches = .ok c ∧ c.sequence.Answers (.ok x) ∧
      x.locals = [("x", .int 0)] ∧ tl.eval ⟨[("x", .int 0)], .empty⟩ = .ok (a, st₁) ∧
      tr.eval st₁ = .ok (b, st₂) ∧ st₂.bindings = [("x", .int 5)] := by
  obtain ⟨t, tl, tr, tag, st, a, b, st₁, st₂, ht, hbody, he, hst, ha, hb, hst₂⟩ :
      ∃ t tl tr tag st a b st₁ st₂, Check.unit nullBranches = .ok t ∧
        t.body = .compare .equal .nullCheck tl tr tag ∧ t.eval = .ok (.int 1, st) ∧
        st.bindings = [("x", .int 0)] ∧ tl.eval ⟨[("x", .int 0)], .empty⟩ = .ok (a, st₁) ∧
        tr.eval st₁ = .ok (b, st₂) ∧ st₂.bindings = [("x", .int 5)] :=
    ⟨_, _, _, _, _, _, _, _, _, rfl, rfl, rfl, rfl, rfl, rfl, rfl⟩
  have hrun := TypedUnit.answers_sequence Options.known_default (Check.wellTyped_unit nofun ht)
  rw [he] at hrun
  obtain ⟨store, hanswers, -⟩ := hrun
  exact ⟨t, tl, tr, tag, _, _, a, b, st₁, st₂, ht, hbody, compile_of_check ht, hanswers, hst, ha,
    hb, hst₂⟩

end StackExpr
