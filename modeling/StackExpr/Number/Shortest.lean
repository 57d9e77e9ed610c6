import StackExpr.Number.Binary

/-! The shortest decimal that reads back as a given binary number.

All arithmetic is exact. A number `m * 2 ^ q` is what every real between the midpoints to its two
neighbours rounds to; the ends belong to it when `m` is even. -/
namespace StackExpr.Number

/-- A positive decimal `digits * 10 ^ exponent`. -/
structure Decimal where
  digits : Nat
  exponent : Int
  deriving DecidableEq

/-- The reals that round to one number, over a common denominator. -/
structure Neighbourhood where
  low : Nat
  value : Nat
  high : Nat
  denominator : Nat
  closed : Bool

/-- A power of two stands nearer to its lower neighbour than to its upper one. -/
def neighbourhood (f : Format) (m : Nat) (q : Int) : Neighbourhood :=
  let below := if m == twoPow f.fraction then 1 else 2
  let (scale, denominator) := if 2 ≤ q then (twoPow (q - 2).toNat, 1) else (1, twoPow (2 - q).toNat)
  ⟨(4 * m - below) * scale, 4 * m * scale, (4 * m + 2) * scale, denominator, m % 2 == 0⟩

def digitCount (n : Nat) : Nat := (Nat.toDigits 10 n).length

namespace Neighbourhood

/-- The power of ten just above the value: `10 ^ (p - 1) ≤ value < 10 ^ p`. -/
def magnitude (r : Neighbourhood) : Int :=
  if r.denominator ≤ r.value then digitCount (r.value / r.denominator)
  else
    let d := digitCount (r.denominator / r.value)
    if r.denominator ≤ r.value * tenPow (d - 1) then 2 - (d : Int) else 1 - (d : Int)

/-- Multiplies the whole neighbourhood by `10 ^ (-e)`. -/
def rescale (r : Neighbourhood) (e : Int) : Neighbourhood :=
  if 0 ≤ e then { r with denominator := r.denominator * tenPow e.toNat }
  else
    let k := tenPow (-e).toNat
    { r with low := r.low * k, value := r.value * k, high := r.high * k }

def contains (r : Neighbourhood) (n : Nat) : Bool :=
  let x := n * r.denominator
  if r.closed then decide (r.low ≤ x) && decide (x ≤ r.high)
  else decide (r.low < x) && decide (x < r.high)

/-- The whole number in the neighbourhood next to its value; a tie goes up. -/
def nearest? (r : Neighbourhood) : Option Nat :=
  let down := r.value / r.denominator
  let up := down + 1
  match r.contains down, r.contains up with
  | true, true =>
    some (if r.denominator ≤ 2 * (r.value - down * r.denominator) then up else down)
  | true, false => some down
  | false, true => some up
  | false, false => none

/-- Tries `count`, `count + 1`, … digits until some decimal falls into the neighbourhood. -/
def search (r : Neighbourhood) (p : Int) : (tries count : Nat) → Decimal
  | 0, count => ⟨(r.rescale (p - count)).value / (r.rescale (p - count)).denominator, p - count⟩
  | tries + 1, count =>
    match (r.rescale (p - count)).nearest? with
    | some n => ⟨n, p - count⟩
    | none => r.search p tries (count + 1)

end Neighbourhood

/-- Moves the zeros at the end of the digits into the exponent. -/
def Decimal.strip (d : Decimal) : Decimal := go (digitCount d.digits) d
where
  go : Nat → Decimal → Decimal
  | 0, d => d
  | fuel + 1, d => if d.digits % 10 == 0 then go fuel ⟨d.digits / 10, d.exponent + 1⟩ else d

/-- The shortest decimal for `m * 2 ^ q` with `m` positive; seventeen digits always suffice. -/
def shortest (f : Format) (m : Nat) (q : Int) : Decimal :=
  let r := neighbourhood f m q
  (r.search r.magnitude 17 1).strip

end StackExpr.Number
