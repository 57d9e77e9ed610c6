/-! Binary floating-point numbers taken apart: a sign, a whole mantissa and a power of two. -/
namespace StackExpr.Number

def twoPow (n : Nat) : Nat := Nat.pow 2 n

def tenPow (n : Nat) : Nat := Nat.pow 10 n

/-- A binary interchange format: fraction bits below exponent bits below a sign bit. -/
structure Format where
  fraction : Nat
  exponent : Nat

def Format.single : Format := ⟨23, 8⟩

def Format.double : Format := ⟨52, 11⟩

def Format.bias (f : Format) : Nat := twoPow (f.exponent - 1) - 1

/-- The exponent of the last fraction bit of the smallest numbers. -/
def Format.lowest (f : Format) : Int := 1 - (f.bias : Int) - f.fraction

/-- What a bit pattern stands for; a finite number is `±m * 2 ^ q`. -/
inductive Binary where
  | nan
  | infinite (negative : Bool)
  | finite (negative : Bool) (m : Nat) (q : Int)
  deriving DecidableEq

namespace Binary

def decode (f : Format) (bits : Nat) : Binary :=
  let fraction := bits % twoPow f.fraction
  let field := bits / twoPow f.fraction % twoPow f.exponent
  let negative := bits / twoPow (f.fraction + f.exponent) % 2 == 1
  if field == twoPow f.exponent - 1 then
    if fraction == 0 then infinite negative else nan
  else if field == 0 then finite negative fraction f.lowest
  else finite negative (fraction + twoPow f.fraction) (f.lowest + (field - 1 : Nat))

/-- The bits of `±m * 2 ^ q`, for a number the format holds exactly. -/
def encode (f : Format) (negative : Bool) (m : Nat) (q : Int) : Nat :=
  let room := f.fraction - Nat.log2 m
  let shift := min room (q - f.lowest).toNat
  let m := m * twoPow shift
  let sign := if negative then twoPow (f.fraction + f.exponent) else 0
  if m < twoPow f.fraction then sign + m
  else sign + m + (q - shift - f.lowest).toNat * twoPow f.fraction

def ofDouble (x : Float) : Binary := decode .double x.toBits.toNat

def ofSingle (x : Float32) : Binary := decode .single x.toBits.toNat

/-- Whether a number has no fractional part; infinities and NaN do not count. -/
def isWhole : Binary → Bool
  | finite _ m q => decide (0 ≤ q) || m % twoPow q.natAbs == 0
  | _ => false

/-- The magnitude of a finite whole number. -/
def whole : Binary → Nat
  | finite _ m q => if 0 ≤ q then m * twoPow q.toNat else m / twoPow q.natAbs
  | _ => 0

end Binary
end StackExpr.Number
