import StackExpr.Proofs.Compounds
import StackExpr.Proofs.WholeNumbers

/-! Integral operators from the source to the result.

Operands of any integral type, boxed or not, are brought to `int` or `long` without loss, and there
each operator computes what it computes on whole numbers. The distance of a shift may lose its high
bits, which do not count. -/
namespace StackExpr

section kinds

variable {j k p : Kind} {t : Ty} {a : Int} {c : Prop} [Decidable c]

/-- Integers are promoted to `long` if one of them is, else to `int`. -/
theorem Kind.binaryPromote?_integral (hj : j.isIntegral = true) (hk : k.isIntegral = true) :
    j.binaryPromote? k = some (if j = .long ∨ k = .long then .long else .int) := by
  cases j <;> cases hj <;> cases k <;> cases hk <;> rfl

theorem Kind.int_or_long (hp : p = if c then .long else .int) : p = .int ∨ p = .long := by
  split at hp
  · exact .inr hp
  · exact .inl hp

theorem Kind.isIntegral_of_int_or_long (hp : p = .int ∨ p = .long) : p.isIntegral = true := by
  rcases hp with rfl | rfl <;> rfl

/-- A kind that is `long` wherever the operand is takes every number of the operand. -/
theorem Kind.fits_promoted (hp : p = if c then .long else .int) (hj : j.isIntegral = true)
    (hc : j = .long → c) (ha : j.fits a = true) : p.fits a = true := by
  split at hp
  · rw [hp]
    exact fits_long_of_fits hj ha
  · next hn =>
    rw [hp]
    exact fits_int_of_fits hj (fun h => hn (hc h)) ha

theorem Ty.isIntegral_of_kind? (h : t.kind? = some k) (hk : k.isIntegral = true) :
    t.isIntegral = true ∧ t.isBoolean = false ∧ t.isString = false := by
  rcases kind?_eq_some h with rfl | rfl <;> cases k <;> cases hk <;> exact ⟨rfl, rfl, rfl⟩

theorem Ty.isNumeric_of_kind? (h : t.kind? = some k) (hk : k.isIntegral = true) :
    t.isNumeric = true := by
  rcases kind?_eq_some h with rfl | rfl <;> cases k <;> cases hk <;> rfl

/-- A cast between integral types goes by way of the target's primitive. -/
theorem Ty.exists_cast? {s : Ty} (hs : s.kind? = some j) (hj : j.isIntegral = true)
    (ht : t.kind? = some k) (hk : k.isIntegral = true) :
    ∃ steps, s.cast? t = some steps ∧
      (s = t ∧ steps = [] ∨ ∃ opening, s.toPrimitive? k = some opening ∧
        (t = .prim k ∧ steps = opening ∨ t = .boxed k ∧ steps = opening ++ [.box k])) := by
  by_cases hne : s = t
  · exact ⟨[], if_pos hne, .inl ⟨hne, rfl⟩⟩
  · obtain ⟨opening, ho⟩ := exists_toPrimitive? hs k
    rw [cast?_of_isNumeric (isNumeric_of_kind? hs hj) (isNumeric_of_kind? ht hk) hne]
    rcases kind?_eq_some ht with rfl | rfl
    · refine ⟨opening, ?_, .inr ⟨opening, ho, .inl ⟨rfl, rfl⟩⟩⟩
      simp only [castByKind?, kind?, bind, Option.bind, ho]
      rfl
    · refine ⟨opening ++ [.box k], ?_, .inr ⟨opening, ho, .inr ⟨rfl, rfl⟩⟩⟩
      simp only [castByKind?, kind?, bind, Option.bind, ho]
      rfl

end kinds

/-- A tree of an integral type, boxed or not, whose evaluation from one state to the next yields a
number. -/
structure Typed.StandsFor (e : Typed) (k : Kind) (n : Int) (st st' : EvalState) : Prop where
  kind : e.type.kind? = some k
  integral : k.isIntegral = true
  fits : k.fits n = true
  eval : e.eval st = .ok (.ofWhole e.type n, st')

namespace Typed

variable {e : Typed} {st st' : EvalState} {v : Value} {k p : Kind} {n : Int}
  {steps : List Conversion}

theorem eval_read {x : Local} (hx : st.bindings.lookup x.name = some v) (tag : Tag) :
    (Typed.read x tag).eval st = .ok (v, st) := by
  change Eval.lookup x.name st = _
  rw [Eval.lookup, hx]

theorem eval_step (he : e.eval st = .ok (v, st')) (c : Conversion) :
    (e.step c).eval st = (c.convert st'.store v).map (·, st') := by
  change (do let v ← e.eval
             Eval.lift (c.convert (← Eval.getStore) v) : Eval Value) st = _
  rw [Eval.bind_of_ok he]
  rfl

theorem eval_change (hk : k.isIntegral = true) (hp : p.isIntegral = true) (hn : k.fits n = true)
    (he : e.eval st = .ok (.ofWhole (.prim k) n, st')) :
    (e.through (if k = p then [] else [.change k p])).eval st =
      .ok (.ofWhole (.prim p) (p.wrap n), st') := by
  split
  · next h =>
    subst h
    rw [Kind.wrap_of_fits hk hn]
    exact he
  · refine (eval_step he _).trans ?_
    rw [Conversion.convert, Value.toKind?_ofWhole hk hp fun _ => .inr hn]
    rfl

/-- On the way to a primitive a box is opened first. -/
theorem StandsFor.toPrimitive (h : e.StandsFor k n st st') (hp : p.isIntegral = true)
    (hs : e.type.toPrimitive? p = some steps) :
    (e.through steps).eval st = .ok (.ofWhole (.prim p) (p.wrap n), st') := by
  have he := h.eval
  rcases Ty.kind?_eq_some h.kind with ht | ht
  · rw [ht] at he hs
    cases hs
    exact eval_change h.integral hp h.fits he
  · rw [ht] at he hs
    cases hs
    have hopen : (e.step (.unbox k)).eval st = .ok (.ofWhole (.prim k) n, st') := by
      rw [eval_step he, Conversion.convert, Value.unbox_ofWhole h.integral h.fits]
      rfl
    exact eval_change h.integral hp h.fits hopen

theorem through_append (e : Typed) (steps more : List Conversion) :
    e.through (steps ++ more) = (e.through steps).through more := List.foldl_append

/-- A cast between integral types wraps. -/
theorem StandsFor.cast {t : Ty} (h : e.StandsFor k n st st') (ht : t.kind? = some p)
    (hp : p.isIntegral = true) :
    ∃ steps, e.type.cast? t = some steps ∧
      (e.through steps).eval st = .ok (.ofWhole t (p.wrap n), st') := by
  obtain ⟨steps, hs, hsteps⟩ := Ty.exists_cast? h.kind h.integral ht hp
  refine ⟨steps, hs, ?_⟩
  rcases hsteps with ⟨rfl, rfl⟩ | ⟨opening, hopening, ⟨rfl, rfl⟩ | ⟨rfl, rfl⟩⟩
  · obtain rfl : k = p := Option.some.inj (h.kind.symm.trans ht)
    rw [Kind.wrap_of_fits hp h.fits]
    exact h.eval
  · exact h.toPrimitive hp hopening
  · rw [through_append]
    refine (eval_step (h.toPrimitive hp hopening) _).trans ?_
    rw [Conversion.convert, Value.box_ofWhole hp]
    rfl

end Typed

namespace Typed

variable {l r : Typed} {j k p : Kind} {op : BinaryOp} {st st₁ st₂ : EvalState} {a b : Int}

/-- Both operands go to the wider of `int` and their kinds. -/
theorem ofBinary_integral (hop : op ∈ BinaryOp.integral) (hl : l.type.kind? = some j)
    (hj : j.isIntegral = true) (hr : r.type.kind? = some k) (hk : k.isIntegral = true)
    (hp : p = if j = .long ∨ k = .long then .long else .int) (span : Span) :
    ∃ left right, l.type.toPrimitive? p = some left ∧ r.type.toPrimitive? p = some right ∧
      ofBinary op l r span =
        .ok (.arith op.arith p (l.through left) (r.through right) ⟨.prim p, span⟩) := by
  obtain ⟨left, hleft⟩ := Ty.exists_toPrimitive? hl p
  obtain ⟨right, hright⟩ := Ty.exists_toPrimitive? hr p
  obtain ⟨hil, hbl, hsl⟩ := Ty.isIntegral_of_kind? hl hj
  obtain ⟨hir, -, hsr⟩ := Ty.isIntegral_of_kind? hr hk
  have hnumeric (category : Category) : Coercion.numeric? category l.type r.type .prim =
      some ⟨category, .numeric p, .prim p, left, right⟩ := by
    simp only [Coercion.numeric?, hl, hr, bind, Option.bind, Kind.binaryPromote?_integral hj hk,
      ← hp, hleft, hright]
    rfl
  refine ⟨left, right, hleft, hright, ?_⟩
  cases op with
  | add | subtract | multiply | divide | modulo =>
    simp [ofBinary, BinaryOp.category?, hsl, hsr, Category.coerce?, hnumeric, ofCoercion,
      OperandMode.kind]
  | bitAnd | bitOr | bitXor =>
    simp [ofBinary, BinaryOp.category?, hbl, hil, hir, Category.coerce?, hnumeric, ofCoercion,
      OperandMode.kind]
  | _ => simp [BinaryOp.integral] at hop

/-- The left operand goes to the wider of `int` and its kind, the distance to `int`. -/
theorem ofBinary_shift (hop : op ∈ BinaryOp.shifts) (hl : l.type.kind? = some j)
    (hj : j.isIntegral = true) (hr : r.type.kind? = some k) (hk : k.isIntegral = true)
    (hp : p = if j = .long then .long else .int) (span : Span) :
    ∃ left right, l.type.toPrimitive? p = some left ∧ r.type.toPrimitive? .int = some right ∧
      ofBinary op l r span =
        .ok (.arith op.arith p (l.through left) (r.through right) ⟨.prim p, span⟩) := by
  obtain ⟨left, hleft⟩ := Ty.exists_toPrimitive? hl p
  obtain ⟨right, hright⟩ := Ty.exists_toPrimitive? hr .int
  obtain ⟨hil, -, -⟩ := Ty.isIntegral_of_kind? hl hj
  obtain ⟨hir, -, -⟩ := Ty.isIntegral_of_kind? hr hk
  have hpromote : j.unaryPromote? = some p := by
    simp only [Kind.unaryPromote?, Kind.binaryPromote?_integral hj hj, or_self, hp]
  have hshift : Coercion.shift? l.type r.type =
      some ⟨.shift, .numeric p, .prim p, left, right⟩ := by
    simp only [Coercion.shift?, hil, hir, Bool.and_self, if_true, hl, bind, Option.bind, hpromote,
      hleft, hright]
    rfl
  refine ⟨left, right, hleft, hright, ?_⟩
  cases op with
  | shiftLeft | shiftRight | unsignedShiftRight =>
    simp [ofBinary, BinaryOp.category?, Category.coerce?, hshift, ofCoercion, OperandMode.kind]
  | _ => simp [BinaryOp.shifts] at hop

theorem eval_arith {v w : Value} (hl : l.eval st = .ok (v, st₁)) (hr : r.eval st₁ = .ok (w, st₂))
    (op : ArithOp) (k : Kind) (tag : Tag) :
    (Typed.arith op k l r tag).eval st = (v.arith op k.stackKind w).map (·, st₂) := by
  change (do let a ← l.eval
             let b ← r.eval
             Eval.lift (a.arith op k.stackKind b) : Eval Value) st = _
  rw [Eval.bind_of_ok hl, Eval.bind_of_ok hr]
  rfl

/-- What an operator computes from operands that stand for numbers. -/
theorem StandsFor.integral_operator (hl : l.StandsFor j a st st₁) (hr : r.StandsFor k b st₁ st₂)
    (hop : op ∈ BinaryOp.integral) (hp : p = if j = .long ∨ k = .long then .long else .int)
    (span : Span) :
    ∃ t, ofBinary op l r span = .ok t ∧ t.type = .prim p ∧
      t.eval st = if op ∈ [.divide, .modulo] ∧ b = 0 then .error .arithmetic
        else .ok (.ofWhole (.prim p) (op.whole p.bits a b), st₂) := by
  obtain ⟨left, right, hleft, hright, ht⟩ :=
    ofBinary_integral hop hl.kind hl.integral hr.kind hr.integral hp span
  have hpi := Kind.int_or_long hp
  have hint := Kind.isIntegral_of_int_or_long hpi
  have ha := Kind.fits_promoted hp hl.integral .inl hl.fits
  have hb := Kind.fits_promoted hp hr.integral .inr hr.fits
  have hx := hl.toPrimitive hint hleft
  have hy := hr.toPrimitive hint hright
  rw [Kind.wrap_of_fits hint ha] at hx
  rw [Kind.wrap_of_fits hint hb] at hy
  refine ⟨_, ht, rfl, ?_⟩
  rw [eval_arith hx hy, Value.arith_ofWhole hpi hop ha hb]
  split <;> rfl

/-- What a shift computes from operands that stand for numbers. -/
theorem StandsFor.shift (hl : l.StandsFor j a st st₁) (hr : r.StandsFor k b st₁ st₂)
    (hop : op ∈ BinaryOp.shifts) (hp : p = if j = .long then .long else .int) (span : Span) :
    ∃ t, ofBinary op l r span = .ok t ∧ t.type = .prim p ∧
      t.eval st = .ok (.ofWhole (.prim p) (op.whole p.bits a b), st₂) := by
  obtain ⟨left, right, hleft, hright, ht⟩ :=
    ofBinary_shift hop hl.kind hl.integral hr.kind hr.integral hp span
  have hpi := Kind.int_or_long hp
  have hint := Kind.isIntegral_of_int_or_long hpi
  have hbits : p.bits = 32 ∨ p.bits = 64 := by rcases hpi with rfl | rfl <;> decide
  have ha := Kind.fits_promoted hp hl.integral id hl.fits
  have hx := hl.toPrimitive hint hleft
  have hy := hr.toPrimitive rfl hright
  rw [Kind.wrap_of_fits hint ha] at hx
  refine ⟨_, ht, rfl, ?_⟩
  rw [eval_arith hx hy, Value.shift_ofWhole hpi hop ha (Kind.fits_wrap rfl),
    BinaryOp.whole_wrap_distance hbits hop]
  rfl

end Typed

/-- A variable of an integral type, boxed or not, that holds a number. -/
structure Local.HoldsWhole (x : Local) (b : Bindings) (k : Kind) (n : Int) : Prop where
  type : x.type = .prim k ∨ x.type = .boxed k
  integral : k.isIntegral = true
  fits : k.fits n = true
  value : b.lookup x.name = some (.ofWhole x.type n)

namespace Local.HoldsWhole

variable {x : Local} {b : Bindings} {k : Kind} {n : Int} {st : EvalState}

theorem kind (h : x.HoldsWhole b k n) : x.type.kind? = some k := by
  rcases h.type with ht | ht <;> rw [ht] <;> rfl

theorem read (h : x.HoldsWhole st.bindings k n) (span : Span) :
    (Typed.read x ⟨x.type, span⟩).StandsFor k n st st where
  kind := h.kind
  integral := h.integral
  fits := h.fits
  eval := Typed.eval_read h.value _

end Local.HoldsWhole

theorem BinaryOp.category?_ne_none {op : BinaryOp} (hop : op ∈ integral ∨ op ∈ shifts) :
    op.category? ≠ none := by
  have h : ∀ op ∈ integral ++ shifts, op.category? ≠ none := by decide
  exact h op (List.mem_append.mpr hop)

section units

variable {ds : List Declaration} {vars : List Local} {b : Bindings} {x y : Local} {j k : Kind}
  {m n : Int} {op : BinaryOp}

/-- An operator on two variables reads the first and then the second. -/
theorem Declaration.Leave.give_binary (hd : Leave ds vars b) (hx : x ∈ vars) (hy : y ∈ vars)
    (hop : op.category? ≠ none) :
    ∃ st, st.bindings = b ∧ ∀ t,
      Typed.ofBinary op (.read x ⟨x.type, .origin⟩) (.read y ⟨y.type, .origin⟩) .origin = .ok t →
      Give ds (.ofBinary op (.var x.name .origin) (.var y.name .origin)) t.type
        ((t.eval st).map fun r => (r.1, r.2.bindings)) := by
  obtain ⟨scope, st, rfl, hnames, hb, hgive⟩ := hd.exists_state
  refine ⟨st, hb, fun t ht => hgive _ t ?_⟩
  rw [← ht]
  exact Check.expr_binary hop (Scope.read_of_mem hnames hx .origin)
    (Scope.read_of_mem hnames hy .origin)

/-- Sums, differences and products are reduced to the width of the operation, bits are combined at
that width, and quotients are cut toward zero. Only a division by zero fails. -/
theorem integral_operators_compute (hd : Declaration.Leave ds vars b) (hx : x ∈ vars)
    (hy : y ∈ vars) (hm : x.HoldsWhole b j m) (hn : y.HoldsWhole b k n)
    (hop : op ∈ BinaryOp.integral) :
    let p := if j = .long ∨ k = .long then Kind.long else .int
    Declaration.Give ds (.ofBinary op (.var x.name .origin) (.var y.name .origin)) (.prim p)
      (if op ∈ [.divide, .modulo] ∧ n = 0 then .error .arithmetic
        else .ok (.ofWhole (.prim p) (op.whole p.bits m n), b)) := by
  intro p
  obtain ⟨st, rfl, hgive⟩ := hd.give_binary hx hy (BinaryOp.category?_ne_none (.inl hop))
  obtain ⟨t, ht, htype, heval⟩ :=
    (hm.read .origin).integral_operator (hn.read .origin) hop (p := p) rfl .origin
  have hresult := hgive t ht
  rw [htype, heval] at hresult
  split
  · next h => rwa [if_pos h] at hresult
  · next h => rwa [if_neg h] at hresult

/-- `let x: Integer = -2147483648; let y: byte = -1; x / y` -/
theorem least_over_minus_one :
    let s := Span.origin
    let ds : List Declaration :=
      [⟨"x", s, some (.simple "Integer" s), some (.int (-2147483648) s), s⟩,
        ⟨"y", s, some (.simple "byte" s), some (.int (-1) s), s⟩]
    Declaration.Give ds (.ofBinary .divide (.var "x" s) (.var "y" s)) (.prim .int)
      (.ok (.int (-2147483648), [("x", .boxed (.int (-2147483648))), ("y", .int (-1))])) := by
  intro s ds
  let x : Local := ⟨"x", 0, .boxed .int⟩
  let y : Local := ⟨"y", 1, .prim .byte⟩
  let b : Bindings := [("x", .boxed (.int (-2147483648))), ("y", .int (-1))]
  have hd : Declaration.Leave ds [x, y] b := Declaration.leave_of_eval rfl rfl rfl rfl
  have hx : x.HoldsWhole b .int (-2147483648) := ⟨.inr rfl, rfl, rfl, rfl⟩
  have hy : y.HoldsWhole b .byte (-1) := ⟨.inl rfl, rfl, rfl, rfl⟩
  have hop : BinaryOp.divide ∈ BinaryOp.integral := by decide
  exact integral_operators_compute hd (by simp) (by simp) hx hy hop

/-- A shift takes the width of the left operand and the distance modulo that width, whatever the
type of the distance. -/
theorem shifts_compute (hd : Declaration.Leave ds vars b) (hx : x ∈ vars) (hy : y ∈ vars)
    (hm : x.HoldsWhole b j m) (hn : y.HoldsWhole b k n) (hop : op ∈ BinaryOp.shifts) :
    let p := if j = .long then Kind.long else .int
    Declaration.Give ds (.ofBinary op (.var x.name .origin) (.var y.name .origin)) (.prim p)
      (.ok (.ofWhole (.prim p) (op.whole p.bits m n), b)) := by
  intro p
  obtain ⟨st, rfl, hgive⟩ := hd.give_binary hx hy (BinaryOp.category?_ne_none (.inr hop))
  obtain ⟨t, ht, htype, heval⟩ :=
    (hm.read .origin).shift (hn.read .origin) hop (p := p) rfl .origin
  have hresult := hgive t ht
  rwa [htype, heval] at hresult

/-- `let x: byte = -1; let d: Long = -3; x >>> d` -/
theorem minus_one_shifted :
    let s := Span.origin
    let ds : List Declaration := [⟨"x", s, some (.simple "byte" s), some (.int (-1) s), s⟩,
      ⟨"d", s, some (.simple "Long" s), some (.int (-3) s), s⟩]
    Declaration.Give ds (.ofBinary .unsignedShiftRight (.var "x" s) (.var "d" s)) (.prim .int)
      (.ok (.int 7, [("x", .int (-1)), ("d", .boxed (.long (-3)))])) := by
  intro s ds
  let x : Local := ⟨"x", 0, .prim .byte⟩
  let d : Local := ⟨"d", 1, .boxed .long⟩
  let b : Bindings := [("x", .int (-1)), ("d", .boxed (.long (-3)))]
  have hd : Declaration.Leave ds [x, d] b := Declaration.leave_of_eval rfl rfl rfl rfl
  have hx : x.HoldsWhole b .byte (-1) := ⟨.inl rfl, rfl, rfl, rfl⟩
  have hdist : d.HoldsWhole b .long (-3) := ⟨.inr rfl, rfl, rfl, rfl⟩
  have hop : BinaryOp.unsignedShiftRight ∈ BinaryOp.shifts := by decide
  exact shifts_compute hd (by simp) (by simp) hx hdist hop

end units

end StackExpr
