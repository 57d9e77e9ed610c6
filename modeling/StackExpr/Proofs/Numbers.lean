import Mathlib.Tactic.Common
import StackExpr.Machine.Wrapper

/-! Whole numbers in the range of a kind. -/
namespace StackExpr

theorem fits_int (n : Int32) : Kind.int.fits n.toInt = true := by
  have h₁ := n.le_toInt
  have h₂ := n.toInt_lt
  simp only [Kind.fits, Kind.range?, Bool.and_eq_true, decide_eq_true_eq]
  omega

/-- A narrow number stays in its range when it is widened. -/
theorem fits_byte (n : Int8) : Kind.byte.fits n.toInt32.toInt = true := by
  have h₁ := n.le_toInt
  have h₂ := n.toInt_lt
  simp only [Kind.fits, Kind.range?, Bool.and_eq_true, decide_eq_true_eq, Int8.toInt_toInt32]
  omega

theorem fits_short (n : Int16) : Kind.short.fits n.toInt32.toInt = true := by
  have h₁ := n.le_toInt
  have h₂ := n.toInt_lt
  simp only [Kind.fits, Kind.range?, Bool.and_eq_true, decide_eq_true_eq, Int16.toInt_toInt32]
  omega

/-- A `char` travels as a number without a sign. -/
theorem toInt_intOfChar (c : UInt16) : (intOfChar c).toInt = c.toNat := by
  have h := c.toNat_lt
  have hb : (intOfChar c).toBitVec.toNat = c.toNat := c.toNat_toUInt32
  change (intOfChar c).toBitVec.toInt = c.toNat
  rw [BitVec.toInt_eq_toNat_of_lt (by omega), hb]

theorem fits_char (c : UInt16) : Kind.char.fits (intOfChar c).toInt = true := by
  have h := c.toNat_lt
  simp only [Kind.fits, Kind.range?, Bool.and_eq_true, decide_eq_true_eq, toInt_intOfChar]
  omega

/-- A number in the range of a narrow kind is not changed by it. -/
theorem toInt8_of_fits {n : Int32} (h : Kind.byte.fits n.toInt = true) :
    n.toInt8.toInt32 = n := by
  simp only [Kind.fits, Kind.range?, Bool.and_eq_true, decide_eq_true_eq] at h
  apply Int32.toInt_inj.mp
  rw [Int8.toInt_toInt32, Int32.toInt_toInt8]
  exact Int.bmod_eq_of_le (by omega) (by omega)

theorem toInt16_of_fits {n : Int32} (h : Kind.short.fits n.toInt = true) :
    n.toInt16.toInt32 = n := by
  simp only [Kind.fits, Kind.range?, Bool.and_eq_true, decide_eq_true_eq] at h
  apply Int32.toInt_inj.mp
  rw [Int16.toInt_toInt32, Int32.toInt_toInt16]
  exact Int.bmod_eq_of_le (by omega) (by omega)

theorem intOfChar_of_fits {n : Int32} (h : Kind.char.fits n.toInt = true) :
    intOfChar (charOfInt n) = n := by
  simp only [Kind.fits, Kind.range?, Bool.and_eq_true, decide_eq_true_eq] at h
  apply Int32.toInt_inj.mp
  rw [toInt_intOfChar]
  have hn : n.toInt = n.toBitVec.toInt := rfl
  have hc : (charOfInt n).toNat = n.toBitVec.toNat % 65536 := by
    rw [charOfInt, UInt32.toNat_toUInt16]
    rfl
  rw [hn, BitVec.toInt_eq_toNat_cond] at h ⊢
  split_ifs at h ⊢ <;> omega

/-- Exclusive or with all bits is the complement. -/
theorem int_xor_neg_one (n : Int32) : n ^^^ (-1) = ~~~n := by
  apply Int32.toBitVec_inj.mp
  simp

theorem long_xor_neg_one (n : Int64) : n ^^^ (-1) = ~~~n := by
  apply Int64.toBitVec_inj.mp
  simp

end StackExpr
