import StackExpr.Proofs.IntegralOperators

/-! Casts of numbers.

Between integral types a cast keeps the low bits of a number. A number in a box of its own kind is
taken out and converted, one that is kept as a `Number` is asked for its value at the other kind,
and the two ways come to the same value. -/
namespace StackExpr

/-- A cast with steps from the operand's type to the written one is accepted. -/
theorem Check.expr_cast {scope : Scope} {hint : Hint} {e : Expr} {typed : Typed}
    {written : TypeExpr} {t : Ty} {steps : List Conversion} (hw : written.resolve = .ok t)
    (he : expr scope (.of t) e = .ok typed) (hs : typed.type.cast? t = some steps)
    (extent span : Span) :
    expr scope hint (.cast e written extent span) =
      .ok ((typed.through steps).withTag ⟨t, extent⟩) := by
  rw [expr, hw]
  simp only [he, bind, Except.bind, Typed.ofCast, hs]

section units

variable {ds ds' : List Declaration} {vars vars' : List Local} {b b' : Bindings} {x y : Local}
  {written : TypeExpr} {t : Ty} {j k l : Kind} {n : Int}

/-- A cast of a variable reads it and takes the steps of the cast. -/
theorem Declaration.Leave.give_cast (hd : Leave ds vars b) (hx : x ∈ vars)
    (hw : written.resolve = .ok t) :
    ∃ st, st.bindings = b ∧ ∀ steps, x.type.cast? t = some steps →
      Give ds (.ofCast (.var x.name .origin) written) t
        ((((Typed.read x ⟨x.type, .origin⟩).through steps).eval st).map
          fun r => (r.1, r.2.bindings)) := by
  obtain ⟨scope, st, rfl, hnames, hb, hgive⟩ := hd.exists_state
  refine ⟨st, hb, fun steps hs => ?_⟩
  have hread : Check.expr scope (.of t) (.var x.name .origin) =
      .ok (.read x ⟨x.type, .origin⟩) := Scope.read_of_mem hnames hx .origin
  have hcast := hgive _ _ (Check.expr_cast hw hread hs .origin .origin)
  rwa [Typed.type_withTag, Typed.eval_withTag] at hcast

/-- A kind that another one widens to takes all its numbers. -/
theorem Kind.fits_of_widensTo (hj : j.isIntegral = true) (hk : k.isIntegral = true)
    (h : j.widensTo k = true) (hn : j.fits n = true) : k.fits n = true := by
  cases k with
  | long => exact fits_long_of_fits hj hn
  | int =>
    have hl : j ≠ .long := by
      rintro rfl
      cases h
    exact fits_int_of_fits hj hl hn
  | byte | short | char =>
    rw [fits_iff rfl]
    cases j <;> cases h <;> rw [fits_iff rfl] at hn <;> omega
  | float | double | boolean => cases hk

/-- A cast between integral types, boxed or not, yields the one number of the target's range that is
congruent, which is the number itself if the target is as wide. -/
theorem integral_casts_wrap (hd : Declaration.Leave ds vars b) (hx : x ∈ vars)
    (hn : x.HoldsWhole b j n) (hk : k.isIntegral = true) (ht : t = .prim k ∨ t = .boxed k)
    (hw : written.resolve = .ok t) :
    ∃ m, (∀ i, k.fits i = true ∧ i ≡ n [ZMOD 2 ^ k.bits] ↔ i = m) ∧
      (j.widensTo k = true → m = n) ∧
      Declaration.Give ds (.ofCast (.var x.name .origin) written) t (.ok (.ofWhole t m, b)) := by
  have hkind : t.kind? = some k := by rcases ht with rfl | rfl <;> rfl
  obtain ⟨st, rfl, hgive⟩ := hd.give_cast hx hw
  obtain ⟨steps, hs, heval⟩ := (hn.read .origin).cast hkind hk
  have hcast := hgive steps hs
  rw [heval] at hcast
  refine ⟨k.wrap n, fun i => Kind.fits_and_modEq_iff hk, fun h => ?_, hcast⟩
  exact Kind.wrap_of_fits hk (Kind.fits_of_widensTo hn.integral hk h hn.fits)

/-- `let x: Long = -2147483649; x as Character` -/
theorem long_cast_to_character :
    let s := Span.origin
    let ds : List Declaration :=
      [⟨"x", s, some (.simple "Long" s), some (.int (-2147483649) s), s⟩]
    Declaration.Give ds (.ofCast (.var "x" s) (.simple "Character" s)) (.boxed .char)
      (.ok (.boxed (.char 65535), [("x", .boxed (.long (-2147483649)))])) := by
  intro s ds
  let x : Local := ⟨"x", 0, .boxed .long⟩
  let b : Bindings := [("x", .boxed (.long (-2147483649)))]
  have hd : Declaration.Leave ds [x] b := Declaration.leave_of_eval rfl rfl rfl rfl
  have hx : x.HoldsWhole b .long (-2147483649) := ⟨.inr rfl, rfl, rfl, rfl⟩
  have hr : (TypeExpr.simple "Character" s).resolve = .ok (.boxed .char) := rfl
  obtain ⟨m, hm, -, hcast⟩ := integral_casts_wrap hd (by simp) hx (k := .char) rfl (.inr rfl) hr
  obtain rfl : 65535 = m := (hm 65535).mp ⟨rfl, rfl⟩
  exact hcast

end units

namespace Wrapper

/-- What a wrapper holds, as the stack has it. -/
def value : Wrapper → Value
  | byte v => .int v.toInt32
  | short v => .int v.toInt32
  | char c => .int (intOfChar c)
  | int v => .int v
  | long v => .long v
  | float v => .float v
  | double v => .double v
  | boolean v => .ofBool v

variable {w : Wrapper} {k : Kind}

theorem unwrap?_kind (w : Wrapper) : w.unwrap? w.kind = some w.value := by
  cases w with
  | byte v => simp [unwrap?, kind, toInt?, value]
  | short v => simp [unwrap?, kind, toInt?, value]
  | char c =>
    have hc : intOfChar (charOfInt (intOfChar c)) = intOfChar c := intOfChar_of_fits (fits_char c)
    simp [unwrap?, kind, toInt?, value, hc]
  | _ => rfl

theorem holds_value (w : Wrapper) : w.kind.Holds w.value := by
  obtain ⟨v, hv, hholds⟩ := Kind.exists_unwrap? (w := w) (.inl rfl)
  rw [unwrap?_kind] at hv
  cases hv
  exact hholds

theorem unbox_boxed (w : Wrapper) : (Value.boxed w).unbox w.kind = .ok w.value := by
  simp only [Value.unbox, if_true, Value.access, unwrap?_kind]

/-- An accessor converts as the instructions do. What it makes of a `float` is the one exception:
other kinds reach it by way of `double`. -/
theorem unwrap?_eq_toKind? (hw : w.kind.isNumeric = true) (hk : k.isNumeric = true)
    (hf : k ≠ .float) : w.unwrap? k = w.value.toKind? k := by
  cases w with
  | boolean v => cases hw
  | _ =>
    cases k with
    | boolean => cases hk
    | float => exact absurd rfl hf
    | _ => rfl

end Wrapper

/-- The value of a type that stands for a number: the number itself, or its wrapper. -/
def Value.ofNumber (t : Ty) (w : Wrapper) : Value :=
  match t with
  | .prim _ => w.value
  | _ => .boxed w

/-- A tree of a numeric type, boxed or not, whose evaluation from one state to the next yields a
number. -/
structure Typed.Denotes (e : Typed) (w : Wrapper) (st st' : EvalState) : Prop where
  kind : e.type.kind? = some w.kind
  numeric : w.kind.isNumeric = true
  eval : e.eval st = .ok (.ofNumber e.type w, st')

namespace Typed

variable {e : Typed} {w : Wrapper} {v : Value} {st st' : EvalState} {k : Kind}
  {steps : List Conversion}

theorem eval_changed (hw : w.kind.isNumeric = true) (hv : w.value.toKind? k = some v)
    (he : e.eval st = .ok (w.value, st')) :
    (e.through (if w.kind = k then [] else [.change w.kind k])).eval st = .ok (v, st') := by
  split
  · next h =>
    subst h
    rw [w.holds_value.toKind? hw] at hv
    cases hv
    exact he
  · refine (eval_step he _).trans ?_
    rw [Conversion.convert, hv]
    rfl

/-- On the way to a primitive a number is converted once, whether it is boxed or not. -/
theorem Denotes.toPrimitive (h : e.Denotes w st st') (hv : w.value.toKind? k = some v)
    (hs : e.type.toPrimitive? k = some steps) : (e.through steps).eval st = .ok (v, st') := by
  have he := h.eval
  rcases Ty.kind?_eq_some h.kind with ht | ht
  · rw [ht] at he hs
    cases hs
    exact eval_changed h.numeric hv he
  · rw [ht] at he hs
    cases hs
    have hbox : e.eval st = .ok (.boxed w, st') := he
    have hopen : (e.step (.unbox w.kind)).eval st = .ok (w.value, st') := by
      rw [eval_step hbox, Conversion.convert, w.unbox_boxed]
      rfl
    exact eval_changed h.numeric hv hopen

/-- A `Number` is asked for its value at a kind. -/
theorem eval_numberValue (he : e.eval st = .ok (.boxed w, st')) (hv : w.unwrap? k = some v) :
    (e.through [.numberValue k]).eval st = .ok (v, st') := by
  refine (eval_step he _).trans ?_
  rw [Conversion.convert, Value.access, hv]
  rfl

end Typed

/-- A variable of a numeric type, boxed or not, that holds a number. -/
structure Local.HoldsNumber (x : Local) (b : Bindings) (w : Wrapper) : Prop where
  type : x.type = .prim w.kind ∨ x.type = .boxed w.kind
  numeric : w.kind.isNumeric = true
  value : b.lookup x.name = some (.ofNumber x.type w)

theorem Local.HoldsNumber.read {x : Local} {w : Wrapper} {st : EvalState}
    (h : x.HoldsNumber st.bindings w) (span : Span) :
    (Typed.read x ⟨x.type, span⟩).Denotes w st st where
  kind := by
    change x.type.kind? = some w.kind
    rcases h.type with ht | ht <;> rw [ht] <;> rfl
  numeric := h.numeric
  eval := Typed.eval_read h.value _

namespace Ty

variable {t : Ty} {j k : Kind}

theorem isNumeric_eq (ht : t.kind? = some j) : t.isNumeric = j.isNumeric := by
  rw [isNumeric, ht]
  rfl

/-- A cast to a primitive opens a box and changes the kind. -/
theorem cast?_prim (ht : t.kind? = some j) (hj : j.isNumeric = true) (hk : k.isNumeric = true) :
    t.cast? (.prim k) = t.toPrimitive? k := by
  have hn : t.isNumeric = true := (isNumeric_eq ht).trans hj
  have hp : (prim k).isNumeric = true := hk
  by_cases hne : t = .prim k
  · subst hne
    simp [cast?, toPrimitive?]
  · obtain ⟨steps, hs⟩ := exists_toPrimitive? ht k
    rw [cast?_of_isNumeric hn hp hne]
    simp only [castByKind?, kind?, bind, Option.bind, hs]
    rfl

theorem number_cast?_prim (hk : k.isNumeric = true) :
    number.cast? (.prim k) = some [.numberValue k] := by
  cases k with
  | boolean => cases hk
  | _ => rfl

end Ty

section numbers

variable {ds ds' : List Declaration} {vars vars' : List Local} {b b' : Bindings} {x y : Local}
  {written : TypeExpr} {w : Wrapper} {k : Kind}

/-- A number that is kept as a `Number` and one that is kept in its own box are cast to the same
value, at every primitive kind but `float`. -/
theorem number_casts_like_box (hd : Declaration.Leave ds vars b)
    (hd' : Declaration.Leave ds' vars' b') (hx : x ∈ vars) (hy : y ∈ vars')
    (hxt : x.type = .number) (hyt : y.type = .boxed w.kind) (hw : w.kind.isNumeric = true)
    (hxv : b.lookup x.name = some (.boxed w)) (hyv : b'.lookup y.name = some (.boxed w))
    (hk : k.isNumeric = true) (hf : k ≠ .float) (hr : written.resolve = .ok (.prim k)) :
    ∃ v, w.value.toKind? k = some v ∧
      Declaration.Give ds (.ofCast (.var x.name .origin) written) (.prim k) (.ok (v, b)) ∧
      Declaration.Give ds' (.ofCast (.var y.name .origin) written) (.prim k) (.ok (v, b')) := by
  obtain ⟨v, hv, -⟩ := Kind.exists_unwrap? (.inr ⟨hw, hk⟩)
  have hvalue := hv
  rw [Wrapper.unwrap?_eq_toKind? hw hk hf] at hvalue
  refine ⟨v, hvalue, ?_, ?_⟩
  · obtain ⟨st, rfl, hgive⟩ := hd.give_cast hx hr
    have hread := Typed.eval_read hxv ⟨x.type, .origin⟩
    have hcast := hgive [.numberValue k] (by rw [hxt, Ty.number_cast?_prim hk])
    rwa [Typed.eval_numberValue hread hv] at hcast
  · obtain ⟨st, rfl, hgive⟩ := hd'.give_cast hy hr
    have hholds : y.HoldsNumber st.bindings w := ⟨.inr hyt, hw, by rw [hyt]; exact hyv⟩
    have hread := hholds.read .origin
    obtain ⟨steps, hs⟩ := Ty.exists_toPrimitive? hread.kind k
    have hcast := hgive steps ((Ty.cast?_prim hread.kind hw hk).trans hs)
    rwa [hread.toPrimitive hvalue hs] at hcast

/-- `let y: Character = 65535; let x: Number = y`, and both cast to `byte`. -/
theorem character_casts_like_box :
    let s := Span.origin
    let ds : List Declaration :=
      [⟨"y", s, some (.simple "Character" s), some (.int 65535 s), s⟩,
        ⟨"x", s, some (.simple "Number" s), some (.var "y" s), s⟩]
    let b : Bindings := [("y", .boxed (.char 65535)), ("x", .boxed (.char 65535))]
    Declaration.Give ds (.ofCast (.var "x" s) (.simple "byte" s)) (.prim .byte)
        (.ok (.int (-1), b)) ∧
      Declaration.Give ds (.ofCast (.var "y" s) (.simple "byte" s)) (.prim .byte)
        (.ok (.int (-1), b)) := by
  intro s ds b
  let y : Local := ⟨"y", 0, .boxed .char⟩
  let x : Local := ⟨"x", 1, .number⟩
  have hd : Declaration.Leave ds [y, x] b := Declaration.leave_of_eval rfl rfl rfl rfl
  have hr : (TypeExpr.simple "byte" s).resolve = .ok (.prim .byte) := rfl
  obtain ⟨v, hv, hnumber, hbox⟩ := number_casts_like_box (x := x) (y := y) (w := .char 65535) hd hd
    (by simp) (by simp) rfl rfl rfl rfl rfl rfl (by decide) hr
  obtain rfl : Value.int (-1) = v := Option.some.inj hv
  exact ⟨hnumber, hbox⟩

end numbers

end StackExpr
