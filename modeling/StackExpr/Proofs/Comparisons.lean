import StackExpr.Proofs.Casts

/-! Comparisons of numbers.

Whole numbers compare as they are, whatever the widths of their types. Floating numbers compare in
the order of their format, in which a NaN has no place. -/
namespace StackExpr

namespace BinaryOp

def comparisons : List BinaryOp :=
  [equal, notEqual, strictEqual, strictNotEqual, less, lessEqual, greater, greaterEqual]

/-- What a comparison says of two whole numbers. -/
def Relates : BinaryOp → Int → Int → Prop
  | equal, m, n | strictEqual, m, n => m = n
  | notEqual, m, n | strictNotEqual, m, n => m ≠ n
  | less, m, n => m < n
  | lessEqual, m, n => m ≤ n
  | greater, m, n => m > n
  | greaterEqual, m, n => m ≥ n
  | _, _, _ => False

/-- What a comparison says of two numbers in some order, or in none. -/
def holdsIn : BinaryOp → Option Ordering → Bool
  | equal, o | strictEqual, o => o = some .eq
  | notEqual, o | strictNotEqual, o => o ≠ some .eq
  | less, o => o = some .lt
  | lessEqual, o => o = some .lt ∨ o = some .eq
  | greater, o => o = some .gt
  | greaterEqual, o => o = some .gt ∨ o = some .eq
  | _, _ => false

variable {op : BinaryOp} {m n : Int}

theorem admits_comparison (hop : op ∈ comparisons) (o : Option Ordering) :
    op.comparison.admits o = op.holdsIn o := by
  have h : ∀ op ∈ comparisons, ∀ o ∈ [none, some .lt, some .eq, some .gt],
      op.comparison.admits o = op.holdsIn o := by decide
  refine h op hop o ?_
  cases o with
  | none => decide
  | some o => cases o <;> decide

theorem category?_comparisons : ∀ op ∈ comparisons, op.category? ≠ none := by decide

theorem holdsIn_none : ∀ op ∈ comparisons,
    op.holdsIn none = decide (op ∈ [notEqual, strictNotEqual]) := by
  decide

/-- A comparison holds in the order of two whole numbers if and only if it holds of the numbers. -/
theorem holdsIn_compare : op.holdsIn (some (compare m n)) = true ↔ op.Relates m n := by
  rcases Int.lt_trichotomy m n with h | h | h
  · have hc : compare m n = .lt := Int.compare_eq_lt.mpr h
    cases op <;> simp [holdsIn, Relates, hc] <;> omega
  · have hc : compare m n = .eq := Int.compare_eq_eq.mpr h
    cases op <;> simp [holdsIn, Relates, hc] <;> omega
  · have hc : compare m n = .gt := Int.compare_eq_gt.mpr h
    cases op <;> simp [holdsIn, Relates, hc] <;> omega

instance : Decidable (op.Relates m n) := decidable_of_iff _ holdsIn_compare

end BinaryOp

/-- The whole number in the wrapper of an integral kind. -/
def Wrapper.whole? : Wrapper → Option Int
  | byte v => some v.toInt
  | short v => some v.toInt
  | char c => some c.toNat
  | int v => some v.toInt
  | long v => some v.toInt
  | _ => none

theorem Wrapper.value_of_whole? {w : Wrapper} {n : Int} (h : w.whole? = some n) :
    w.kind.isIntegral = true ∧ w.kind.fits n = true ∧ w.value = .ofWhole (.prim w.kind) n := by
  have hint (v : Int32) (hv : v.toInt = n) : Value.int v = .int (.ofInt n) := by
    rw [← hv, Int32.ofInt_toInt]
  cases w with
  | byte v =>
    have hv : v.toInt32.toInt = n := v.toInt_toInt32.trans (Option.some.inj h)
    exact ⟨rfl, hv ▸ fits_byte v, hint _ hv⟩
  | short v =>
    have hv : v.toInt32.toInt = n := v.toInt_toInt32.trans (Option.some.inj h)
    exact ⟨rfl, hv ▸ fits_short v, hint _ hv⟩
  | char c =>
    have hc : (intOfChar c).toInt = n := (toInt_intOfChar c).trans (Option.some.inj h)
    exact ⟨rfl, hc ▸ fits_char c, hint _ hc⟩
  | int v =>
    have hv : v.toInt = n := Option.some.inj h
    exact ⟨rfl, hv ▸ fits_int v, hint _ hv⟩
  | long v =>
    obtain rfl : v.toInt = n := Option.some.inj h
    have h₁ := v.le_toInt
    have h₂ := v.toInt_lt
    refine ⟨rfl, (Kind.fits_iff rfl).mpr (by omega), ?_⟩
    change Value.long v = .long (.ofInt v.toInt)
    rw [Int64.ofInt_toInt]
  | float | double | boolean => cases h

namespace Value

variable {k : Kind} {m n : Int}

theorem ordering_int (m n : Int) : ordering (m < n) (m = n) (n < m) = some (Ord.compare m n) := by
  rcases Int.lt_trichotomy m n with h | h | h
  · rw [Int.compare_eq_lt.mpr h]
    simp [ordering, h]
  · rw [Int.compare_eq_eq.mpr h]
    simp [ordering, h]
  · rw [Int.compare_eq_gt.mpr h]
    simp [ordering, h, Int.lt_asymm h, Int.ne_of_gt h]

/-- Words that stand for whole numbers compare as the numbers do. -/
theorem order_ofWhole (hk : k = .int ∨ k = .long) (hm : k.fits m = true) (hn : k.fits n = true) :
    (ofWhole (.prim k) m).order (ofWhole (.prim k) n) = .ok (some (Ord.compare m n)) := by
  rw [← ordering_int m n]
  rcases hk with rfl | rfl
  · have hm' : (Int32.ofInt m).toInt = m := toInt_ofInt_int hm
    have hn' : (Int32.ofInt n).toInt = n := toInt_ofInt_int hn
    simp only [ofWhole, order, Int32.lt_iff_toInt_lt, beq_eq_decide, ← Int32.toInt_inj, hm', hn']
  · have hm' : (Int64.ofInt m).toInt = m := toInt_ofInt_long hm
    have hn' : (Int64.ofInt n).toInt = n := toInt_ofInt_long hn
    simp only [ofWhole, order, Int64.lt_iff_toInt_lt, beq_eq_decide, ← Int64.toInt_inj, hm', hn']

end Value

open Float.Model in
/-- Floating numbers that change places are in the opposite order. -/
theorem unpacked_compare_swap (a b : UnpackedFloat) :
    b.compare a = (a.compare b).map Ordering.swap := by
  cases a with
  | notANumber => cases b <;> rfl
  | infinity s =>
    cases b with
    | infinity s' => cases s <;> cases s' <;> rfl
    | _ => cases s <;> rfl
  | zero s =>
    cases b with
    | infinity s' => cases s' <;> rfl
    | finite s' => cases s' <;> rfl
    | _ => rfl
  | finite s m e hm =>
    cases b with
    | infinity s' => cases s' <;> cases s <;> rfl
    | finite s' m' e' hm' =>
      have hs : ((compare e e').then (compare m m')).swap =
          (compare e' e).then (compare m' m) := by
        rw [Ordering.swap_then, ← Std.OrientedOrd.eq_swap (a := e'),
          ← Std.OrientedOrd.eq_swap (a := m')]
      cases s <;> cases s' <;> simp [UnpackedFloat.compare, hs]
    | zero s' => cases s <;> rfl
    | notANumber => cases s <;> rfl

namespace Value

/-- The order of two floating numbers of one format. -/
def floatingOrder : Value → Value → Option Ordering
  | float a, float b => a.toModel.compare b.toModel
  | double a, double b => a.toModel.compare b.toModel
  | _, _ => none

/-- What `<`, `==` and `>` say of two numbers adds up to their order. -/
theorem ordering_of_compare {p q : Prop} [Decidable p] [Decidable q] {equal : Bool}
    {o o' : Option Ordering} (hp : p ↔ (o == some .lt) = true) (hequal : equal = (o == some .eq))
    (hq : q ↔ (o' == some .lt) = true) (hswap : o' = o.map Ordering.swap) :
    ordering p equal q = o := by
  have hless : decide p = (o == some .lt) := by rw [decide_eq_decide.mpr hp, Bool.decide_coe]
  have hgreater : decide q = (o' == some .lt) := by rw [decide_eq_decide.mpr hq, Bool.decide_coe]
  rw [hless, hequal, hgreater, hswap]
  cases o with
  | none => rfl
  | some o => cases o <;> rfl

theorem ordering_double (a b : Float) :
    ordering (a < b) (a == b) (b < a) = a.toModel.compare b.toModel :=
  ordering_of_compare decide_eq_true_iff rfl decide_eq_true_iff (unpacked_compare_swap _ _)

theorem ordering_float (a b : Float32) :
    ordering (a < b) (a == b) (b < a) = a.toModel.compare b.toModel :=
  ordering_of_compare decide_eq_true_iff rfl decide_eq_true_iff (unpacked_compare_swap _ _)

theorem order_floating {k : Kind} {a b : Value} (hk : k = .double ∨ k = .float) (ha : k.Holds a)
    (hb : k.Holds b) : a.order b = .ok (a.floatingOrder b) := by
  rcases hk with rfl | rfl
  · obtain ⟨x, rfl⟩ := ha.eq_double
    obtain ⟨y, rfl⟩ := hb.eq_double
    exact congrArg Except.ok (ordering_double x y)
  · obtain ⟨x, rfl⟩ := ha.eq_float
    obtain ⟨y, rfl⟩ := hb.eq_float
    exact congrArg Except.ok (ordering_float x y)

end Value

section kinds

variable {j k p : Kind}

theorem Kind.binaryPromote?_floating (hj : j.isNumeric = true) (hk : k.isNumeric = true)
    (h : j.isFloating = true ∨ k.isFloating = true) :
    j.binaryPromote? k = some (if j = .double ∨ k = .double then .double else .float) := by
  cases j <;> cases hj <;> cases k <;> cases hk <;> first | rfl | simp [isFloating] at h

theorem Wrapper.exists_toKind? (w : Wrapper) (hk : k.isNumeric = true) :
    ∃ v, w.value.toKind? k = some v ∧ k.Holds v := by
  apply Kind.exists_toKind? hk
  rw [w.holds_value.stackKind]
  cases w <;> nofun

/-- Whole numbers reach the common kind of two integral operands as they are. -/
theorem Wrapper.toKind?_promoted {w : Wrapper} {n : Int} {c : Prop} [Decidable c]
    (hn : w.whole? = some n) (hp : p = if c then .long else .int) (hc : w.kind = .long → c) :
    p.fits n = true ∧ w.value.toKind? p = some (.ofWhole (.prim p) n) := by
  obtain ⟨hint, hfits, hvalue⟩ := value_of_whole? hn
  have hpint := Kind.isIntegral_of_int_or_long (Kind.int_or_long hp)
  have hpfits := Kind.fits_promoted hp hint hc hfits
  refine ⟨hpfits, ?_⟩
  rw [hvalue, Value.toKind?_ofWhole hint hpint fun _ => .inr hfits, Kind.wrap_of_fits hpint hpfits]

/-- At their common kind the operands are in the order of their whole numbers. -/
theorem Wrapper.order_of_whole? {v w : Wrapper} {m n : Int} {a b : Value}
    (hm : v.whole? = some m) (hn : w.whole? = some n) (hp : v.kind.binaryPromote? w.kind = some p)
    (ha : v.value.toKind? p = some a) (hb : w.value.toKind? p = some b) :
    a.order b = .ok (some (Ord.compare m n)) := by
  obtain ⟨hv, -, -⟩ := value_of_whole? hm
  obtain ⟨hw, -, -⟩ := value_of_whole? hn
  have hpromote := Option.some.inj (hp.symm.trans (Kind.binaryPromote?_integral hv hw))
  obtain ⟨hfitsm, ham⟩ := toKind?_promoted hm hpromote .inl
  obtain ⟨hfitsn, hbn⟩ := toKind?_promoted hn hpromote .inr
  obtain rfl := Option.some.inj (ha.symm.trans ham)
  obtain rfl := Option.some.inj (hb.symm.trans hbn)
  exact Value.order_ofWhole (Kind.int_or_long hpromote) hfitsm hfitsn

end kinds

namespace Typed

variable {l r : Typed} {j k p : Kind} {v w : Wrapper} {a b : Value} {o : Option Ordering}
  {op : BinaryOp} {st st₁ st₂ : EvalState}

/-- Every comparison brings its operands to their common kind. -/
theorem ofBinary_comparison (hop : op ∈ BinaryOp.comparisons) (hl : l.type.kind? = some j)
    (hr : r.type.kind? = some k) (hp : j.binaryPromote? k = some p) (span : Span) :
    ∃ left right, l.type.toPrimitive? p = some left ∧ r.type.toPrimitive? p = some right ∧
      ofBinary op l r span = .ok (.compare op.comparison (.numeric p) (l.through left)
        (r.through right) ⟨.prim .boolean, span⟩) := by
  obtain ⟨left, hleft⟩ := Ty.exists_toPrimitive? hl p
  obtain ⟨right, hright⟩ := Ty.exists_toPrimitive? hr p
  obtain ⟨hj, hk, -, -⟩ := Kind.binaryPromote?_eq_some hp
  have hnl := (Ty.isNumeric_eq hl).trans hj
  have hnr := (Ty.isNumeric_eq hr).trans hk
  have hnumeric (category : Category) :
      Coercion.numeric? category l.type r.type (fun _ => .prim .boolean) =
        some ⟨category, .numeric p, .prim .boolean, left, right⟩ := by
    simp only [Coercion.numeric?, hl, hr, bind, Option.bind, hp, hleft, hright]
    rfl
  refine ⟨left, right, hleft, hright, ?_⟩
  cases op with
  | less | lessEqual | greater | greaterEqual | equal | notEqual | strictEqual | strictNotEqual =>
    simp [ofBinary, BinaryOp.category?, Category.coerce?, Coercion.equality?, hnl, hnr, hnumeric,
      ofCoercion]
  | _ => simp [BinaryOp.comparisons] at hop

theorem eval_compare (hl : l.eval st = .ok (a, st₁)) (hr : r.eval st₁ = .ok (b, st₂))
    (ho : a.order b = .ok o) (op : Comparison) (p : Kind) (tag : Tag) :
    (Typed.compare op (.numeric p) l r tag).eval st = .ok (.ofBool (op.admits o), st₂) := by
  rw [eval_compare_numbers OperandMode.noConfusion OperandMode.noConfusion, Eval.bind_of_ok hl,
    Eval.bind_of_ok hr, Value.compare, ho]
  rfl

/-- A comparison of two numbers answers by their order at the common kind. -/
theorem Denotes.comparison (hl : l.Denotes v st st₁) (hr : r.Denotes w st₁ st₂)
    (hop : op ∈ BinaryOp.comparisons) (hp : v.kind.binaryPromote? w.kind = some p)
    (ha : v.value.toKind? p = some a) (hb : w.value.toKind? p = some b) (ho : a.order b = .ok o)
    (span : Span) :
    ∃ t, ofBinary op l r span = .ok t ∧ t.type = .prim .boolean ∧
      t.eval st = .ok (.ofBool (op.holdsIn o), st₂) := by
  obtain ⟨left, right, hleft, hright, ht⟩ := ofBinary_comparison hop hl.kind hr.kind hp span
  refine ⟨_, ht, rfl, ?_⟩
  rw [eval_compare (hl.toPrimitive ha hleft) (hr.toPrimitive hb hright) ho,
    BinaryOp.admits_comparison hop]

end Typed

section units

variable {ds : List Declaration} {vars : List Local} {b : Bindings} {x y : Local} {v w : Wrapper}
  {op : BinaryOp}

/-- A comparison of two numbers answers yes or no. Whole numbers of any widths compare as they are.
If a floating kind takes part, the order of the operands at the wider floating kind decides, and
operands in no order are unequal and nothing else. -/
theorem comparisons_follow_order (hd : Declaration.Leave ds vars b) (hx : x ∈ vars) (hy : y ∈ vars)
    (hv : x.HoldsNumber b v) (hw : y.HoldsNumber b w) (hop : op ∈ BinaryOp.comparisons) :
    let p := if v.kind = .double ∨ w.kind = .double then Kind.double else .float
    ∃ answer,
      Declaration.Give ds (.ofBinary op (.var x.name .origin) (.var y.name .origin))
        (.prim .boolean) (.ok (.ofBool answer, b)) ∧
      (∀ m n, v.whole? = some m → w.whole? = some n → (answer = true ↔ op.Relates m n)) ∧
      (v.kind.isFloating = true ∨ w.kind.isFloating = true →
        ∃ c d, v.value.toKind? p = some c ∧ w.value.toKind? p = some d ∧
          answer = op.holdsIn (c.floatingOrder d) ∧
          (c.floatingOrder d = none → answer = decide (op ∈ [.notEqual, .strictNotEqual]))) := by
  intro p
  obtain ⟨q, hq⟩ := Kind.exists_binaryPromote? hv.numeric hw.numeric
  have hnumeric := Kind.isNumeric_of_isPromoted (Kind.binaryPromote?_eq_some hq).2.2.1
  obtain ⟨c, hc, hholdsc⟩ := v.exists_toKind? hnumeric
  obtain ⟨d, hd', hholdsd⟩ := w.exists_toKind? hnumeric
  obtain ⟨o, ho⟩ := Kind.exists_order hholdsc hholdsd
  obtain ⟨st, rfl, hgive⟩ := hd.give_binary hx hy (BinaryOp.category?_comparisons op hop)
  obtain ⟨t, ht, htype, heval⟩ :=
    (hv.read .origin).comparison (hw.read .origin) hop hq hc hd' ho .origin
  have hresult := hgive t ht
  rw [htype, heval] at hresult
  -- The order at the common kind decides; it remains to say which order that is.
  refine ⟨op.holdsIn o, hresult, fun m n hm hn => ?_, fun hfloating => ?_⟩
  · obtain rfl := Except.ok.inj (ho.symm.trans (Wrapper.order_of_whole? hm hn hq hc hd'))
    exact BinaryOp.holdsIn_compare
  · obtain rfl : q = p :=
      Option.some.inj (hq.symm.trans (Kind.binaryPromote?_floating hv.numeric hw.numeric hfloating))
    have hp : p = .double ∨ p = .float := ite_eq_or_eq ..
    obtain rfl := Except.ok.inj (ho.symm.trans (Value.order_floating hp hholdsc hholdsd))
    refine ⟨c, d, hc, hd', rfl, fun hnone => ?_⟩
    rw [hnone]
    exact BinaryOp.holdsIn_none op hop

/-- `let x: double = NaN; let y: Byte = -1; let z: char = 65535`, and then `x != y` and `y < z` -/
theorem nan_unequal_and_byte_below_char :
    let s := Span.origin
    let nan := Float.ofBits 0x7ff8000000000000
    let ds : List Declaration :=
      [⟨"x", s, some (.simple "double" s), some (.float nan s), s⟩,
        ⟨"y", s, some (.simple "Byte" s), some (.int (-1) s), s⟩,
        ⟨"z", s, some (.simple "char" s), some (.int 65535 s), s⟩]
    let b : Bindings := [("x", .double nan), ("y", .boxed (.byte (-1))), ("z", .int 65535)]
    Declaration.Give ds (.ofBinary .notEqual (.var "x" s) (.var "y" s)) (.prim .boolean)
        (.ok (.int 1, b)) ∧
      Declaration.Give ds (.ofBinary .less (.var "y" s) (.var "z" s)) (.prim .boolean)
        (.ok (.int 1, b)) := by
  intro s nan ds b
  let x : Local := ⟨"x", 0, .prim .double⟩
  let y : Local := ⟨"y", 2, .boxed .byte⟩
  let z : Local := ⟨"z", 3, .prim .char⟩
  have hd : Declaration.Leave ds [x, y, z] b := Declaration.leave_of_eval rfl rfl rfl rfl
  have hx : x.HoldsNumber b (.double nan) := ⟨.inl rfl, rfl, rfl⟩
  have hy : y.HoldsNumber b (.byte (-1)) := ⟨.inr rfl, rfl, rfl⟩
  have hz : z.HoldsNumber b (.char 65535) := ⟨.inl rfl, rfl, rfl⟩
  have hop : BinaryOp.notEqual ∈ BinaryOp.comparisons := by decide
  have hop' : BinaryOp.less ∈ BinaryOp.comparisons := by decide
  obtain ⟨unequal, hne, -, hfloating⟩ :=
    comparisons_follow_order hd (by simp) (by simp) hx hy hop
  obtain ⟨below, hlt, hwhole, -⟩ := comparisons_follow_order hd (by simp) (by simp) hy hz hop'
  obtain ⟨c, d, hc, hd', -, hnone⟩ := hfloating (.inl rfl)
  obtain rfl : Value.double nan = c := Option.some.inj hc
  obtain rfl := Option.some.inj hd'
  have hnan : nan.toModel.unpack = .notANumber := by cbv
  have hunordered (e : Float) : (Value.double nan).floatingOrder (.double e) = none := by
    change nan.toModel.unpack.compare _ = none
    rw [hnan]
    rfl
  obtain rfl : unequal = true := hnone (hunordered _)
  obtain rfl : below = true := (hwhole (-1) 65535 rfl rfl).mpr (by decide)
  exact ⟨hne, hlt⟩

end units

end StackExpr
