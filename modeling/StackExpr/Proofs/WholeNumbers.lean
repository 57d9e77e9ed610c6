import Mathlib.Data.Int.ModEq
import StackExpr.Check.Operation
import StackExpr.Proofs.Evaluation
import StackExpr.Proofs.Numbers

/-! Whole numbers and the values that stand for them.

The words of the machine are read as whole numbers: wrapping to a kind, and what each integral
operator makes of two numbers at a width. -/
namespace StackExpr

/-- The number of a kind's range with the same low bits. -/
def Kind.wrap (k : Kind) (n : Int) : Int :=
  match k with
  | .char => n % 65536
  | k => n.bmod (2 ^ k.bits)

namespace Kind

variable {j k : Kind} {m n : Int}

/-- A number fits a kind if it is within its range. -/
theorem fits_iff {low high : Int} (h : k.range? = some (low, high)) :
    k.fits n = true ↔ low ≤ n ∧ n ≤ high := by
  simp [fits, h]

/-- Wrapping finds the one number of the range that is congruent. -/
theorem fits_and_modEq_iff (hk : k.isIntegral = true) :
    k.fits m = true ∧ m ≡ n [ZMOD 2 ^ k.bits] ↔ m = k.wrap n := by
  cases k <;> cases hk <;> rw [fits_iff rfl] <;>
    simp only [Int.ModEq, bits, wrap, Int.bmod_def] <;> omega

theorem wrap_of_fits (hk : k.isIntegral = true) (hn : k.fits n = true) : k.wrap n = n :=
  ((fits_and_modEq_iff hk).mp ⟨hn, .refl n⟩).symm

/-- Wrapping ends in the range of the kind. -/
theorem fits_wrap (hk : k.isIntegral = true) : k.fits (k.wrap n) = true :=
  ((fits_and_modEq_iff hk).mpr rfl).1

/-- Every integral kind but `long` has its range within that of `int`. -/
theorem fits_int_of_fits (hk : k.isIntegral = true) (hl : k ≠ .long) (hn : k.fits n = true) :
    Kind.int.fits n = true := by
  rw [fits_iff rfl]
  cases k with
  | byte | short | char | int =>
    rw [fits_iff rfl] at hn
    omega
  | long => exact absurd rfl hl
  | _ => cases hk

theorem fits_long_of_fits (hk : k.isIntegral = true) (hn : k.fits n = true) :
    Kind.long.fits n = true := by
  rw [fits_iff rfl]
  cases k <;> cases hk <;> rw [fits_iff rfl] at hn <;> omega

end Kind

/-- The value of an integral type that stands for a number of its range. -/
def Value.ofWhole (t : Ty) (n : Int) : Value :=
  match t with
  | .prim .long => .long (.ofInt n)
  | .prim _ => .int (.ofInt n)
  | .boxed .byte => .boxed (.byte (.ofInt n))
  | .boxed .short => .boxed (.short (.ofInt n))
  | .boxed .char => .boxed (.char (.ofInt n))
  | .boxed .int => .boxed (.int (.ofInt n))
  | .boxed .long => .boxed (.long (.ofInt n))
  | _ => .null

namespace Value

variable {j k : Kind} {n : Int}

theorem ofWhole_prim (hl : k ≠ .long) (n : Int) : ofWhole (.prim k) n = .int (.ofInt n) := by
  cases k with
  | long => exact absurd rfl hl
  | _ => rfl

theorem toInt8_ofInt (n : Int) :
    (Int32.ofInt n).toInt8.toInt32 = .ofInt (Kind.byte.wrap n) := by
  have h := (Kind.fits_iff rfl).mp (Kind.fits_wrap (k := .byte) (n := n) rfl)
  apply Int32.toInt_inj.mp
  rw [Int32.toInt8_ofInt, Int8.toInt_toInt32, Int8.toInt_ofInt,
    Int32.toInt_ofInt_of_le (by omega) (by omega)]
  rfl

theorem toInt16_ofInt (n : Int) :
    (Int32.ofInt n).toInt16.toInt32 = .ofInt (Kind.short.wrap n) := by
  have h := (Kind.fits_iff rfl).mp (Kind.fits_wrap (k := .short) (n := n) rfl)
  apply Int32.toInt_inj.mp
  rw [Int32.toInt16_ofInt, Int16.toInt_toInt32, Int16.toInt_ofInt,
    Int32.toInt_ofInt_of_le (by omega) (by omega)]
  rfl

theorem toNat_ofInt (n : Int) : ((UInt16.ofInt n).toNat : Int) = n % 65536 := by
  rw [UInt16.ofInt, UInt16.toNat_ofNat']
  omega

theorem charOfInt_ofInt (n : Int) : charOfInt (.ofInt n) = .ofInt n := by
  have hbits : (Int32.ofInt n).toUInt32.toNat = (n % 4294967296).toNat := BitVec.toNat_ofInt n
  have hchar := toNat_ofInt n
  apply UInt16.toNat_inj.mp
  rw [charOfInt, UInt32.toNat_toUInt16, hbits]
  omega

theorem intOfChar_ofInt (n : Int) : intOfChar (.ofInt n) = .ofInt (Kind.char.wrap n) := by
  have h := (Kind.fits_iff rfl).mp (Kind.fits_wrap (k := .char) (n := n) rfl)
  apply Int32.toInt_inj.mp
  rw [toInt_intOfChar, toNat_ofInt, Int32.toInt_ofInt_of_le (by omega) (by omega)]
  rfl

/-- Read as an `int`, a whole number keeps its low bits. -/
theorem toInt?_ofWhole (hk : k.isIntegral = true) (n : Int) :
    (ofWhole (.prim k) n).toInt? = some (.ofInt n) := by
  by_cases hl : k = .long
  · subst hl
    exact congrArg some Int64.toInt32_ofInt
  · rw [ofWhole_prim hl]
    rfl

theorem toLong?_ofWhole (hk : k.isIntegral = true) (hn : k = .long ∨ k.fits n = true) :
    (ofWhole (.prim k) n).toLong? = some (.ofInt n) := by
  by_cases hl : k = .long
  · subst hl
    rfl
  · have hint := (Kind.fits_iff rfl).mp (Kind.fits_int_of_fits hk hl (hn.resolve_left hl))
    rw [ofWhole_prim hl, toLong?, Int32.toInt64_ofInt hint.1 hint.2]

theorem ofInt_wrap_int (n : Int) : Int32.ofInt (Kind.int.wrap n) = .ofInt n := by
  apply Int32.toInt_inj.mp
  rw [Int32.toInt_ofInt, Int32.toInt_ofInt]
  exact Int.bmod_bmod

theorem ofInt_wrap_long (n : Int) : Int64.ofInt (Kind.long.wrap n) = .ofInt n := by
  apply Int64.toInt_inj.mp
  rw [Int64.toInt_ofInt, Int64.toInt_ofInt]
  exact Int.bmod_bmod

/-- A change of kind wraps. Only what is to be a `long` has to be read whole. -/
theorem toKind?_ofWhole (hj : j.isIntegral = true) (hk : k.isIntegral = true)
    (hn : k = .long → j = .long ∨ j.fits n = true) :
    (ofWhole (.prim j) n).toKind? k = some (ofWhole (.prim k) (k.wrap n)) := by
  cases k with
  | byte =>
    rw [toKind?, toInt?_ofWhole hj, Option.map_some, toInt8_ofInt]
    rfl
  | short =>
    rw [toKind?, toInt?_ofWhole hj, Option.map_some, toInt16_ofInt]
    rfl
  | char =>
    rw [toKind?, toInt?_ofWhole hj, Option.map_some, charOfInt_ofInt, intOfChar_ofInt]
    rfl
  | int =>
    rw [toKind?, toInt?_ofWhole hj, Option.map_some, ← ofInt_wrap_int]
    rfl
  | long =>
    rw [toKind?, toLong?_ofWhole hj (hn rfl), Option.map_some, ← ofInt_wrap_long]
    rfl
  | _ => cases hk

/-- The wrapper of a number holds the number. -/
theorem box_ofWhole (hk : k.isIntegral = true) (n : Int) :
    (ofWhole (.prim k) n).box k = .ok (ofWhole (.boxed k) n) := by
  cases k with
  | byte => simp only [ofWhole, box, wrap?, Int32.toInt8_ofInt]
  | short => simp only [ofWhole, box, wrap?, Int32.toInt16_ofInt]
  | char => simp only [ofWhole, box, wrap?, charOfInt_ofInt]
  | int | long => rfl
  | _ => cases hk

theorem unbox_ofWhole (hk : k.isIntegral = true) (hn : k.fits n = true) :
    (ofWhole (.boxed k) n).unbox k = .ok (ofWhole (.prim k) n) := by
  have hrange {low high : Int} (h : k.range? = some (low, high)) := (Kind.fits_iff h).mp hn
  cases k with
  | byte =>
    obtain ⟨hl, hh⟩ := hrange rfl
    simp only [ofWhole, unbox, Wrapper.kind, access, Wrapper.unwrap?, Wrapper.toInt?, if_true,
      Option.map_some, Int8.toInt32_ofInt hl hh, toInt8_ofInt, Kind.wrap_of_fits hk hn]
  | short =>
    obtain ⟨hl, hh⟩ := hrange rfl
    simp only [ofWhole, unbox, Wrapper.kind, access, Wrapper.unwrap?, Wrapper.toInt?, if_true,
      Option.map_some, Int16.toInt32_ofInt hl hh, toInt16_ofInt, Kind.wrap_of_fits hk hn]
  | char =>
    simp only [ofWhole, unbox, Wrapper.kind, access, Wrapper.unwrap?, Wrapper.toInt?, if_true,
      Option.map_some, intOfChar_ofInt, charOfInt_ofInt, Kind.wrap_of_fits hk hn]
  | int | long => rfl
  | _ => cases hk

end Value

namespace BinaryOp

/-- Operators that bring both operands to one width. -/
def integral : List BinaryOp :=
  [.add, .subtract, .multiply, .divide, .modulo, .bitAnd, .bitOr, .bitXor]

/-- Operators that take the width of the left operand; the right one is a distance. -/
def shifts : List BinaryOp := [.shiftLeft, .shiftRight, .unsignedShiftRight]

/-- What an operator makes of two whole numbers at a width of so many bits. A distance counts modulo
the width. -/
def whole (op : BinaryOp) (w : Nat) (a b : Int) : Int :=
  match op with
  | .add => (a + b).bmod (2 ^ w)
  | .subtract => (a - b).bmod (2 ^ w)
  | .multiply => (a * b).bmod (2 ^ w)
  -- the one quotient that leaves the range
  | .divide => if a = -2 ^ (w - 1) ∧ b = -1 then a else a.tdiv b
  | .modulo => a.tmod b
  | .bitAnd => (BitVec.ofInt w a &&& BitVec.ofInt w b).toInt
  | .bitOr => (BitVec.ofInt w a ||| BitVec.ofInt w b).toInt
  | .bitXor => (BitVec.ofInt w a ^^^ BitVec.ofInt w b).toInt
  | .shiftLeft => (a * 2 ^ (b % w).toNat).bmod (2 ^ w)
  | .shiftRight => a.fdiv (2 ^ (b % w).toNat)
  | .unsignedShiftRight => (a % 2 ^ w / 2 ^ (b % w).toNat).bmod (2 ^ w)
  | _ => 0

/-- The same on the bits. -/
def onBits {w : Nat} (op : BinaryOp) (a b : BitVec w) : BitVec w :=
  match op with
  | .add => a + b
  | .subtract => a - b
  | .multiply => a * b
  | .divide => a.sdiv b
  | .modulo => a.srem b
  | .bitAnd => a &&& b
  | .bitOr => a ||| b
  | .bitXor => a ^^^ b
  | .shiftLeft => a <<< b.smod (.ofNat w w)
  | .shiftRight => a.sshiftRight' (b.smod (.ofNat w w))
  | .unsignedShiftRight => a >>> b.umod (.ofNat w w)
  | _ => 0#w

section bits

variable {w : Nat} (a b : BitVec w)

theorem natCast_toNat : (a.toNat : Int) = a.toInt % 2 ^ w := by
  have hlt : (a.toNat : Int) < 2 ^ w := by exact_mod_cast a.isLt
  have hmod : (a.toNat : Int).bmod (2 ^ w) % (2 ^ w : Nat) = a.toNat % (2 ^ w : Nat) :=
    Int.bmod_emod
  push_cast at hmod
  rw [BitVec.toInt_eq_toNat_bmod, hmod, Int.emod_eq_of_lt (Int.natCast_nonneg _) hlt]

/-- Division is cut toward zero, but the least number over minus one is the least number again. -/
theorem toInt_sdiv (hw : 0 < w) :
    (a.sdiv b).toInt = if a.toInt = -2 ^ (w - 1) ∧ b.toInt = -1 then a.toInt
      else a.toInt.tdiv b.toInt := by
  have hleast : (BitVec.intMin w).toInt = -2 ^ (w - 1) := BitVec.toInt_intMin_of_pos hw
  have hminus : (-1#w).toInt = -1 := by
    rw [BitVec.neg_one_eq_allOnes, BitVec.toInt_allOnes, if_pos hw]
  split
  · next h =>
    have ha : a = BitVec.intMin w := BitVec.toInt_inj.mp (h.1.trans hleast.symm)
    have hb : b = -1#w := BitVec.toInt_inj.mp (h.2.trans hminus.symm)
    rw [ha, hb, BitVec.intMin_sdiv_neg_one]
  · next h =>
    apply BitVec.toInt_sdiv_of_ne_or_ne
    by_contra hn
    simp only [not_or, not_not] at hn
    exact h ⟨by rw [hn.1, hleast], by rw [hn.2, hminus]⟩

/-- The distance of a signed shift. -/
theorem toNat_smod (hw : w = 32 ∨ w = 64) :
    (b.smod (.ofNat w w)).toNat = (b.toInt % w).toNat := by
  rcases hw with rfl | rfl
  · have hs : (b.smod (.ofNat 32 32)).toInt = b.toInt % 32 :=
      BitVec.toInt_smod.trans (Int.fmod_eq_emod_of_nonneg _ (by decide))
    rw [BitVec.toInt_eq_toNat_cond] at hs
    split at hs <;> omega
  · have hs : (b.smod (.ofNat 64 64)).toInt = b.toInt % 64 :=
      BitVec.toInt_smod.trans (Int.fmod_eq_emod_of_nonneg _ (by decide))
    rw [BitVec.toInt_eq_toNat_cond] at hs
    split at hs <;> omega

/-- The distance of an unsigned shift. -/
theorem toNat_umod (hw : w = 32 ∨ w = 64) :
    (b.umod (.ofNat w w)).toNat = (b.toInt % w).toNat := by
  have hb := natCast_toNat b
  rcases hw with rfl | rfl
  · have hu : (b.umod (.ofNat 32 32)).toNat = b.toNat % 32 := BitVec.toNat_umod
    omega
  · have hu : (b.umod (.ofNat 64 64)).toNat = b.toNat % 64 := BitVec.toNat_umod
    omega

theorem toInt_shiftLeft (n : Nat) : (a <<< n).toInt = (a.toInt * 2 ^ n).bmod (2 ^ w) := by
  rw [BitVec.toInt_shiftLeft, BitVec.toInt_eq_toNat_bmod, Int.bmod_mul_bmod, Nat.shiftLeft_eq]
  push_cast
  rfl

theorem toInt_sshiftRight (n : Nat) : (a.sshiftRight n).toInt = a.toInt.fdiv (2 ^ n) := by
  rw [BitVec.toInt_sshiftRight, Int.shiftRight_eq_div_pow,
    Int.fdiv_eq_ediv_of_nonneg _ (Int.pow_nonneg (by decide))]
  push_cast
  rfl

theorem toInt_ushiftRight (n : Nat) :
    (a >>> n).toInt = (a.toInt % 2 ^ w / 2 ^ n).bmod (2 ^ w) := by
  rw [BitVec.toInt_eq_toNat_bmod, BitVec.toNat_ushiftRight, Nat.shiftRight_eq_div_pow]
  push_cast
  rw [natCast_toNat]

end bits

/-- On the bits an operator computes what it makes of the numbers, reduced to the width. -/
theorem toInt_onBits {w : Nat} {op : BinaryOp} (hw : w = 32 ∨ w = 64)
    (hop : op ∈ integral ++ shifts) (a b : BitVec w) :
    (op.onBits a b).toInt = op.whole w a.toInt b.toInt := by
  have hpos : 0 < w := by omega
  cases op with
  | add => exact BitVec.toInt_add a b
  | subtract => exact BitVec.toInt_sub
  | multiply => exact BitVec.toInt_mul a b
  | divide => exact toInt_sdiv a b hpos
  | modulo => exact BitVec.toInt_srem a b
  | bitAnd | bitOr | bitXor => simp only [onBits, whole, BitVec.ofInt_toInt]
  | shiftLeft =>
    rw [whole, ← toNat_smod b hw]
    exact toInt_shiftLeft a _
  | shiftRight =>
    rw [whole, ← toNat_smod b hw]
    exact toInt_sshiftRight a _
  | unsignedShiftRight =>
    rw [whole, ← toNat_umod b hw]
    exact toInt_ushiftRight a _
  | _ => simp [integral, shifts] at hop

end BinaryOp

section machine

variable {op : BinaryOp} {a b : Int} {k : Kind}

theorem toInt_ofInt_int (h : Kind.int.fits a = true) : (Int32.ofInt a).toBitVec.toInt = a := by
  rw [Kind.fits_iff rfl] at h
  exact Int32.toInt_ofInt_of_le (by omega) (by omega)

theorem toInt_ofInt_long (h : Kind.long.fits a = true) : (Int64.ofInt a).toBitVec.toInt = a := by
  rw [Kind.fits_iff rfl] at h
  exact Int64.toInt_ofInt_of_le (by omega) (by omega)

/-- An operator on words is the operator on what they stand for; only a division by zero fails. -/
theorem intArith_ofInt (hop : op ∈ BinaryOp.integral ++ BinaryOp.shifts)
    (ha : Kind.int.fits a = true) (hb : Kind.int.fits b = true) :
    intArith op.arith (.ofInt a) (.ofInt b) =
      if op ∈ [.divide, .modulo] ∧ b = 0 then .error .divisionByZero
      else .ok (.ofInt (op.whole 32 a b)) := by
  have hzero : Int32.ofInt b = 0 ↔ b = 0 := by
    rw [← Int32.toBitVec_inj, ← BitVec.toInt_inj, toInt_ofInt_int hb]
    rfl
  have hwhole : Int32.ofInt (op.whole 32 a b) =
      .ofBitVec (op.onBits (Int32.ofInt a).toBitVec (Int32.ofInt b).toBitVec) := by
    conv_lhs => rw [← toInt_ofInt_int ha, ← toInt_ofInt_int hb]
    rw [← BinaryOp.toInt_onBits (.inl rfl) hop]
    exact congrArg Int32.ofBitVec BitVec.ofInt_toInt
  rw [hwhole]
  cases op with
  | divide | modulo =>
    by_cases hb0 : b = 0
    · rw [if_pos ⟨by decide, hb0⟩]
      exact if_pos (hzero.mpr hb0)
    · rw [if_neg fun h => hb0 h.2]
      exact if_neg (mt hzero.mp hb0)
  | add | subtract | multiply | bitAnd | bitOr | bitXor | shiftLeft | shiftRight
  | unsignedShiftRight => rfl
  | _ => simp [BinaryOp.integral, BinaryOp.shifts] at hop

theorem longArith_ofInt (hop : op ∈ BinaryOp.integral ++ BinaryOp.shifts)
    (ha : Kind.long.fits a = true) (hb : Kind.long.fits b = true) :
    longArith op.arith (.ofInt a) (.ofInt b) =
      if op ∈ [.divide, .modulo] ∧ b = 0 then .error .divisionByZero
      else .ok (.ofInt (op.whole 64 a b)) := by
  have hzero : Int64.ofInt b = 0 ↔ b = 0 := by
    rw [← Int64.toBitVec_inj, ← BitVec.toInt_inj, toInt_ofInt_long hb]
    rfl
  have hwhole : Int64.ofInt (op.whole 64 a b) =
      .ofBitVec (op.onBits (Int64.ofInt a).toBitVec (Int64.ofInt b).toBitVec) := by
    conv_lhs => rw [← toInt_ofInt_long ha, ← toInt_ofInt_long hb]
    rw [← BinaryOp.toInt_onBits (.inr rfl) hop]
    exact congrArg Int64.ofBitVec BitVec.ofInt_toInt
  rw [hwhole]
  cases op with
  | divide | modulo =>
    by_cases hb0 : b = 0
    · rw [if_pos ⟨by decide, hb0⟩]
      exact if_pos (hzero.mpr hb0)
    · rw [if_neg fun h => hb0 h.2]
      exact if_neg (mt hzero.mp hb0)
  | add | subtract | multiply | bitAnd | bitOr | bitXor | shiftLeft | shiftRight
  | unsignedShiftRight => rfl
  | _ => simp [BinaryOp.integral, BinaryOp.shifts] at hop

/-- A distance counts modulo the width, so the low bits of it are enough. -/
theorem BinaryOp.whole_wrap_distance {w : Nat} (hw : w = 32 ∨ w = 64) (hop : op ∈ shifts) :
    op.whole w a (Kind.int.wrap b) = op.whole w a b := by
  have hmod : Kind.int.wrap b % (w : Int) = b % w := by
    simp only [Kind.wrap, Kind.bits, Int.bmod_def]
    rcases hw with rfl | rfl <;> omega
  cases op with
  | shiftLeft | shiftRight | unsignedShiftRight => simp only [whole, hmod]
  | _ => simp [shifts] at hop

theorem BinaryOp.isShift_integral : ∀ op ∈ integral, op.arith.isShift = false := by decide

theorem BinaryOp.isShift_shifts :
    ∀ op ∈ shifts, op.arith.isShift = true ∧ op ∉ [divide, modulo] := by
  decide

namespace Value

/-- Arithmetic on words of one kind is arithmetic on the numbers they stand for. -/
theorem arith_ofWhole (hk : k = .int ∨ k = .long) (hop : op ∈ BinaryOp.integral)
    (ha : k.fits a = true) (hb : k.fits b = true) :
    (ofWhole (.prim k) a).arith op.arith k.stackKind (ofWhole (.prim k) b) =
      if op ∈ [.divide, .modulo] ∧ b = 0 then .error .arithmetic
      else .ok (ofWhole (.prim k) (op.whole k.bits a b)) := by
  have hall : op ∈ BinaryOp.integral ++ BinaryOp.shifts := List.mem_append_left _ hop
  rcases hk with rfl | rfl
  · simp only [ofWhole, arith, Kind.stackKind, intArith_ofInt hall ha hb]
    split <;> rfl
  · simp only [ofWhole, arith, Kind.stackKind, longArith_ofInt hall ha hb,
      BinaryOp.isShift_integral op hop, Bool.false_eq_true, if_false]
    split <;> rfl

/-- The distance of a shift is an `int`, also where a `long` is shifted. -/
theorem shift_ofWhole (hk : k = .int ∨ k = .long) (hop : op ∈ BinaryOp.shifts)
    (ha : k.fits a = true) (hb : Kind.int.fits b = true) :
    (ofWhole (.prim k) a).arith op.arith k.stackKind (ofWhole (.prim .int) b) =
      .ok (ofWhole (.prim k) (op.whole k.bits a b)) := by
  have hall : op ∈ BinaryOp.integral ++ BinaryOp.shifts := List.mem_append_right _ hop
  obtain ⟨hshift, hdivides⟩ := BinaryOp.isShift_shifts op hop
  rcases hk with rfl | rfl
  · simp only [ofWhole, arith, Kind.stackKind, intArith_ofInt hall ha hb, hdivides, false_and,
      if_false]
    rfl
  · have hrange := (Kind.fits_iff rfl).mp hb
    simp only [ofWhole, arith, Kind.stackKind, hshift, if_true,
      Int32.toInt64_ofInt hrange.1 hrange.2,
      longArith_ofInt hall ha (Kind.fits_long_of_fits rfl hb), hdivides, false_and, if_false]
    rfl

end Value

end machine

end StackExpr
