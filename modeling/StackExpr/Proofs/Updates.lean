import StackExpr.Proofs.IntegralOperators

/-! Updates of integral variables.

`++x`, `x++` and `x += 1` store the same number: the one of the variable's range that is congruent
to one more. They differ in what they yield, and all of them fail on a box that is not there. -/
namespace StackExpr

namespace UpdateOp

/-- How far an update goes. -/
def stride : UpdateOp → Int
  | .increment => 1
  | .decrement => -1

/-- The operator of the compound assignment that does the same. -/
def compound : UpdateOp → AssignOp
  | .increment => .add
  | .decrement => .subtract

def binary : UpdateOp → BinaryOp
  | .increment => .add
  | .decrement => .subtract

variable (op : UpdateOp)

theorem binary?_compound : op.compound.binary? = some op.binary := by cases op <;> rfl

theorem binary_mem : op.binary ∈ BinaryOp.integral ∧ op.binary ∉ [.divide, .modulo] := by
  cases op <;> decide

theorem arith_binary : (if op.delta > 0 then ArithOp.add else .subtract) = op.binary.arith := by
  cases op <;> rfl

/-- The compound assignment adds the stride, at the width of the operation. -/
theorem whole_binary (w : Nat) (n : Int) :
    op.binary.whole w n 1 = (n + op.stride).bmod (2 ^ w) := by
  cases op <;> rfl

end UpdateOp

section bump

variable {k p : Kind} {t : Ty} {n : Int}

/-- Wrapping to a wider range first changes nothing. -/
theorem Kind.wrap_wrap (hk : k.isIntegral = true) (hp : p = .int ∨ p = .long)
    (hl : k = .long → p = .long) : k.wrap (p.wrap n) = k.wrap n := by
  rcases hp with rfl | rfl
  · cases k with
    | byte | short | char | int =>
      simp only [wrap, bits, Int.bmod_def]
      omega
    | long => cases hl rfl
    | _ => cases hk
  · cases k <;> cases hk <;> simp only [wrap, bits, Int.bmod_def] <;> omega

/-- Below `int` a number travels as an `int`. -/
theorem Value.ofWhole_promoted (hk : k.isIntegral = true)
    (hp : p = if k = .long then .long else .int) :
    ofWhole (.prim k) n = ofWhole (.prim p) n ∧ k.stackKind = p.stackKind ∧
      one k.stackKind = ofWhole (.prim p) 1 := by
  subst hp
  cases k <;> cases hk <;> exact ⟨rfl, rfl, rfl⟩

theorem UpdateOp.whole_eq_wrap (op : UpdateOp) (hp : p = .int ∨ p = .long) (n : Int) :
    op.binary.whole p.bits n 1 = p.wrap (n + op.stride) := by
  rw [op.whole_binary]
  rcases hp with rfl | rfl <;> rfl

/-- A number goes up or down by one within the range of its kind. -/
theorem Value.bump_ofWhole (op : UpdateOp) (hk : k.isIntegral = true) (hn : k.fits n = true) :
    (ofWhole (.prim k) n).bump k op.delta = .ok (ofWhole (.prim k) (k.wrap (n + op.stride))) := by
  obtain ⟨p, hp⟩ : ∃ p, p = if k = Kind.long then Kind.long else .int := ⟨_, rfl⟩
  have hpi := Kind.int_or_long hp
  have hint := Kind.isIntegral_of_int_or_long hpi
  have hone : p.fits 1 = true := by rcases hpi with rfl | rfl <;> rfl
  have hlong : k = .long → p = .long := fun h => by rw [hp, if_pos h]
  obtain ⟨htravels, hstack, hvalue⟩ := ofWhole_promoted (n := n) hk hp
  obtain ⟨hmem, hdivides⟩ := op.binary_mem
  rw [bump, op.arith_binary, htravels, hvalue, hstack,
    arith_ofWhole hpi hmem (Kind.fits_promoted hp hk id hn) hone, if_neg fun h => hdivides h.1]
  simp only [bind, Except.bind, toKind?_ofWhole hint hk fun h => .inl (hlong h),
    op.whole_eq_wrap hpi, Kind.wrap_wrap hk hpi hlong]
  rfl

theorem Eval.bumped_ofWhole (op : UpdateOp) (ht : t = .prim k ∨ t = .boxed k)
    (hk : k.isIntegral = true) (hn : k.fits n = true) :
    bumped t op.delta (.ofWhole t n) = .ok (.ofWhole t (k.wrap (n + op.stride))) := by
  rcases ht with rfl | rfl
  · exact Value.bump_ofWhole op hk hn
  · simp only [bumped, Value.unbox_ofWhole hk hn, bind, Except.bind, Value.bump_ofWhole op hk hn,
      Value.box_ofWhole hk]

end bump

namespace Typed

variable {e : Typed} {x : Local} {st st' : EvalState} {v : Value} {f : FaultKind} {tag : Tag}

theorem eval_update (hx : st.bindings.lookup x.name = some v) (delta : Int8) (before : Bool) :
    (update x delta before tag).eval st = (Eval.bumped x.type delta v).map fun new =>
      (if before then new else v, { st with bindings := st.bindings.set x.name new }) := by
  have hread : Eval.lookup x.name st = .ok (v, st) := by rw [Eval.lookup, hx]
  change (do let old ← Eval.lookup x.name
             let new ← Eval.lift (Eval.bumped x.type delta old)
             Eval.assign x.name new
             return if before then new else old : Eval Value) st = _
  rw [Eval.bind_of_ok hread]
  cases Eval.bumped x.type delta v <;> rfl

theorem eval_assign (he : e.eval st = .ok (v, st')) :
    (assign x e tag).eval st =
      .ok (v, { st' with bindings := st'.bindings.set x.name v }) := by
  change (do let v ← e.eval
             Eval.assign x.name v
             return v : Eval Value) st = _
  rw [Eval.bind_of_ok he]
  rfl

theorem eval_assign_error (he : e.eval st = .error f) : (assign x e tag).eval st = .error f :=
  Eval.bind_of_error he

theorem eval_arith_error {r : Typed} {op : ArithOp} {k : Kind} (he : e.eval st = .error f) :
    (Typed.arith op k e r tag).eval st = .error f :=
  Eval.bind_of_error he

theorem eval_through_error (he : e.eval st = .error f) (steps : List Conversion) :
    (e.through steps).eval st = .error f := by
  induction steps generalizing e with
  | nil => exact he
  | cons c rest ih =>
    have hstep : (e.step c).eval st = .error f := Eval.bind_of_error he
    exact ih hstep

end Typed

section forms

variable {scope : Scope} {x : Local} {k p : Kind} {n : Int} {st : EvalState} {op : UpdateOp}

theorem Check.expr_update (hn : (scope.vars.map (·.name)).Nodup) (hx : x ∈ scope.vars)
    (ht : x.type.isNumeric = true) (hint : Hint) (op : UpdateOp) (before : Bool) :
    expr scope hint (.ofUpdate op before (.var x.name .origin)) =
      .ok (.update x op.delta before ⟨x.type, .origin⟩) := by
  rw [Expr.ofUpdate, expr, Scope.target_of_mem hn hx]
  simp only [bind, Except.bind, Typed.ofUpdate, ht, if_true]
  rfl

/-- An update stores the wrapped number and yields it, or the one before. -/
theorem Local.HoldsWhole.eval_update (h : x.HoldsWhole st.bindings k n) (op : UpdateOp)
    (before : Bool) (tag : Tag) :
    let new := Value.ofWhole x.type (k.wrap (n + op.stride))
    (Typed.update x op.delta before tag).eval st =
      .ok (if before then new else .ofWhole x.type n,
        { st with bindings := st.bindings.set x.name new }) := by
  rw [Typed.eval_update h.value, Eval.bumped_ofWhole op h.type h.integral h.fits]
  rfl

theorem Typed.eval_update_null (hx : st.bindings.lookup x.name = some .null)
    (ht : x.type = .boxed k) (op : UpdateOp) (before : Bool) (tag : Tag) :
    (update x op.delta before tag).eval st = .error .nullPointer := by
  rw [eval_update hx, ht]
  rfl

/-- What `x += 1` and `x -= 1` store. -/
theorem Local.HoldsWhole.exists_combines (h : x.HoldsWhole st.bindings k n) (scope : Scope)
    (op : UpdateOp) :
    ∃ value, Check.Combines scope x op.binary (.int 1 .origin) value ∧
      value.eval st = .ok (.ofWhole x.type (k.wrap (n + op.stride)), st) := by
  obtain ⟨p, hp⟩ : ∃ p, p = if k = Kind.long ∨ Kind.int = .long then Kind.long else .int :=
    ⟨_, rfl⟩
  have hpi := Kind.int_or_long hp
  have hint := Kind.isIntegral_of_int_or_long hpi
  have hlong : k = .long → p = .long := fun h => by rw [hp, if_pos (.inl h)]
  obtain ⟨hmem, hdivides⟩ := op.binary_mem
  have hread := h.read .origin
  have hone : (Typed.constant (.int 1) ⟨.prim .int, .origin⟩).StandsFor .int 1 st st :=
    ⟨rfl, rfl, rfl, rfl⟩
  obtain ⟨combined, hb, htype, heval⟩ := hread.integral_operator hone hmem hp .origin
  rw [if_neg fun h => hdivides h.1, ← htype, op.whole_eq_wrap hpi] at heval
  have hcombined : combined.StandsFor p (p.wrap (n + op.stride)) st st :=
    ⟨by rw [htype]; rfl, hint, Kind.fits_wrap hint, heval⟩
  obtain ⟨steps, hs, hvalue⟩ := hcombined.cast hread.kind h.integral
  rw [Kind.wrap_wrap h.integral hpi hlong] at hvalue
  exact ⟨_, ⟨_, combined, steps, rfl, hb, hs, rfl⟩, hvalue⟩

/-- A box that is not there cannot be opened. -/
theorem Check.exists_combines_null (hx : st.bindings.lookup x.name = some .null)
    (ht : x.type = .boxed k) (hk : k.isIntegral = true) (scope : Scope) (op : UpdateOp) :
    ∃ value, Combines scope x op.binary (.int 1 .origin) value ∧
      value.eval st = .error .nullPointer := by
  obtain ⟨p, hp⟩ : ∃ p, p = if k = Kind.long ∨ Kind.int = .long then Kind.long else .int :=
    ⟨_, rfl⟩
  have hint := Kind.isIntegral_of_int_or_long (Kind.int_or_long hp)
  have hkind : (Typed.read x ⟨x.type, .origin⟩).type.kind? = some k := by
    change x.type.kind? = some k
    rw [ht]
    rfl
  have hread := Typed.eval_read hx ⟨x.type, .origin⟩
  obtain ⟨left, right, hleft, -, hb⟩ := Typed.ofBinary_integral (l := .read x ⟨x.type, .origin⟩)
    (r := .constant (.int 1) ⟨.prim .int, .origin⟩) op.binary_mem.1 hkind hk rfl rfl hp .origin
  obtain ⟨steps, hs, -⟩ := Ty.exists_cast? (s := .prim p) (t := x.type) rfl hint hkind hk
  have hopen : ((Typed.read x ⟨x.type, .origin⟩).through left).eval st = .error .nullPointer := by
    change x.type.toPrimitive? p = some left at hleft
    rw [ht] at hleft
    cases hleft
    exact Typed.eval_through_error (Typed.eval_step hread (.unbox k)) _
  exact ⟨_, ⟨_, _, steps, rfl, hb, hs, rfl⟩,
    Typed.eval_through_error (Typed.eval_arith_error hopen) steps⟩

end forms

section units

variable {ds : List Declaration} {vars : List Local} {b : Bindings} {x : Local}

/-- What the three forms come to after declarations, in the state that these leave. -/
theorem Declaration.Leave.give_updates (hd : Leave ds vars b) (hx : x ∈ vars)
    (ht : x.type.isNumeric = true) (op : UpdateOp) :
    ∃ scope st, st.bindings = b ∧
      (∀ before, Give ds (.ofUpdate op before (.var x.name .origin)) x.type
        (((Typed.update x op.delta before ⟨x.type, .origin⟩).eval st).map
          fun r => (r.1, r.2.bindings))) ∧
      ∀ value, Check.Combines scope x op.binary (.int 1 .origin) value →
        Give ds (.compound op.compound x.name (.int 1 .origin)) x.type
          (((Typed.assign x value ⟨x.type, .origin⟩).eval st).map
            fun r => (r.1, r.2.bindings)) := by
  obtain ⟨scope, st, rfl, hnames, hb, hgive⟩ := hd.exists_state
  refine ⟨scope, st, hb, fun before => ?_, fun value hvalue => ?_⟩
  · exact hgive _ _ (Check.expr_update hnames hx ht .none op before)
  · have hnull : x.type ≠ .null := fun h => by
      rw [h] at ht
      cases ht
    exact hgive _ _ ((Check.compound_eq_ok_iff hnames hx hnull op.binary?_compound).mpr
      ⟨value, hvalue, rfl⟩)

/-- Every form opens the box before it stores anything. -/
theorem Declaration.Leave.give_updates_null {k : Kind} (hd : Leave ds vars b) (hx : x ∈ vars)
    (ht : x.type = .boxed k) (hk : k.isIntegral = true) (hnull : b.lookup x.name = some .null)
    (op : UpdateOp) :
    (∀ before, Give ds (.ofUpdate op before (.var x.name .origin)) x.type
      (.error .nullPointer)) ∧
      Give ds (.compound op.compound x.name (.int 1 .origin)) x.type (.error .nullPointer) := by
  have hkind : x.type.kind? = some k := by
    rw [ht]
    rfl
  obtain ⟨scope, st, rfl, hupdate, hcompound⟩ :=
    hd.give_updates hx (Ty.isNumeric_of_kind? hkind hk) op
  obtain ⟨value, hvalue, hfails⟩ := Check.exists_combines_null hnull ht hk scope op
  constructor
  · intro before
    have hbefore := hupdate before
    rwa [Typed.eval_update_null hnull ht] at hbefore
  · have hstored := hcompound value hvalue
    rwa [Typed.eval_assign_error hfails] at hstored

/-- Counting a variable up or down stores the one number of its range that is congruent to one more
or one less, as adding and subtracting 1 does, and touches no other variable. The forms with the
operator in front yield what they store, the form with the operator behind what was there. If there
is no box to count in, all of them fail. -/
theorem updates_wrap (hd : Declaration.Leave ds vars b) (hx : x ∈ vars) (op : UpdateOp) :
    let before := Expr.ofUpdate op true (.var x.name .origin)
    let behind := Expr.ofUpdate op false (.var x.name .origin)
    let compound := Expr.compound op.compound x.name (.int 1 .origin)
    (∀ k n, x.HoldsWhole b k n →
      ∃ m b', (∀ i, k.fits i = true ∧ i ≡ n + op.stride [ZMOD 2 ^ k.bits] ↔ i = m) ∧
        b'.lookup x.name = some (.ofWhole x.type m) ∧ (∀ y ≠ x.name, b'.lookup y = b.lookup y) ∧
        Declaration.Give ds before x.type (.ok (.ofWhole x.type m, b')) ∧
        Declaration.Give ds behind x.type (.ok (.ofWhole x.type n, b')) ∧
        Declaration.Give ds compound x.type (.ok (.ofWhole x.type m, b'))) ∧
    ∀ k, x.type = .boxed k → k.isIntegral = true → b.lookup x.name = some .null →
      ∀ e ∈ [before, behind, compound], Declaration.Give ds e x.type (.error .nullPointer) := by
  intro before behind compound
  constructor
  · intro k n h
    obtain ⟨scope, st, rfl, hupdate, hcompound⟩ :=
      hd.give_updates hx (Ty.isNumeric_of_kind? h.kind h.integral) op
    obtain ⟨value, hvalue, hstored⟩ := h.exists_combines scope op
    have hbefore := hupdate true
    have hbehind := hupdate false
    have hcompound := hcompound value hvalue
    rw [h.eval_update] at hbefore hbehind
    rw [Typed.eval_assign hstored] at hcompound
    exact ⟨k.wrap (n + op.stride), _, fun i => Kind.fits_and_modEq_iff h.integral,
      Bindings.lookup_set_self h.value, fun y hy => Bindings.lookup_set_ne hy, hbefore, hbehind,
      hcompound⟩
  · intro k ht hk hnull e he
    obtain ⟨hupdate, hcompound⟩ := hd.give_updates_null hx ht hk hnull op
    simp only [List.mem_cons, List.not_mem_nil, or_false] at he
    rcases he with rfl | rfl | rfl
    · exact hupdate true
    · exact hupdate false
    · exact hcompound

/-- `let b: Byte = 127; let n: Integer = null`, where `++b` and `b += 1` go round to -128 and `n--`
has nothing to count. -/
theorem updates_wrap_bytes :
    let s := Span.origin
    let ds : List Declaration := [⟨"b", s, some (.simple "Byte" s), some (.int 127 s), s⟩,
      ⟨"n", s, some (.simple "Integer" s), some (.null s), s⟩]
    (∃ b', b'.lookup "b" = some (.boxed (.byte (-128))) ∧ b'.lookup "n" = some .null ∧
      Declaration.Give ds (.ofUpdate .increment true (.var "b" s)) (.boxed .byte)
        (.ok (.boxed (.byte (-128)), b')) ∧
      Declaration.Give ds (.ofUpdate .increment false (.var "b" s)) (.boxed .byte)
        (.ok (.boxed (.byte 127), b')) ∧
      Declaration.Give ds (.compound .add "b" (.int 1 s)) (.boxed .byte)
        (.ok (.boxed (.byte (-128)), b'))) ∧
    Declaration.Give ds (.ofUpdate .decrement false (.var "n" s)) (.boxed .int)
      (.error .nullPointer) := by
  intro s ds
  let x : Local := ⟨"b", 0, .boxed .byte⟩
  let y : Local := ⟨"n", 1, .boxed .int⟩
  let b : Bindings := [("b", .boxed (.byte 127)), ("n", .null)]
  have hd : Declaration.Leave ds [x, y] b := Declaration.leave_of_eval rfl rfl rfl rfl
  have hx : x.HoldsWhole b .byte 127 := ⟨.inr rfl, rfl, rfl, rfl⟩
  constructor
  · obtain ⟨m, b', hm, hself, hother, hbefore, hbehind, hcompound⟩ :=
      (updates_wrap hd (by simp) .increment).1 .byte 127 hx
    obtain rfl : -128 = m := (hm (-128)).mp ⟨rfl, rfl⟩
    exact ⟨b', hself, hother "n" (by decide), hbefore, hbehind, hcompound⟩
  · exact (updates_wrap hd (x := y) (by simp) .decrement).2 .int rfl rfl rfl _
      (List.mem_cons_of_mem _ List.mem_cons_self)

end units

end StackExpr
