import StackExpr.Number.Shortest

/-! Written forms of floating-point numbers. -/
namespace StackExpr.Number

def zeros (n : Nat) : String := String.ofList (List.replicate n '0')

/-- The digits with a point set in place and no exponent. -/
def Decimal.positional (d : Decimal) : String :=
  let digits := Nat.toDigits 10 d.digits
  if 0 ≤ d.exponent then String.ofList digits ++ zeros d.exponent.toNat
  else
    let places := (-d.exponent).toNat
    if places < digits.length then
      String.ofList (digits.take (digits.length - places)) ++ "." ++
        String.ofList (digits.drop (digits.length - places))
    else "0." ++ zeros (places - digits.length) ++ String.ofList digits

/-- One digit before the point, at least one after it, and a power of ten. -/
def Decimal.scientific (d : Decimal) : String :=
  let digits := Nat.toDigits 10 d.digits
  let rest := if digits.length ≤ 1 then "0" else String.ofList (digits.drop 1)
  String.ofList (digits.take 1) ++ "." ++ rest ++ "E" ++
    toString (d.exponent + (digits.length - 1 : Nat))

def sign (negative : Bool) : String := if negative then "-" else ""

/-- Plain form: positional, whole numbers without a point. -/
def Binary.plain (f : Format) : Binary → String
  | nan => "NaN"
  | infinite negative => sign negative ++ "inf"
  | finite negative 0 _ => sign negative ++ "0"
  | finite negative m q => sign negative ++ (shortest f m q).positional

/-- Source form: like the plain one, but whole numbers are written exactly and end in `.0`. -/
def Binary.source (f : Format) (b : Binary) : String :=
  match b with
  | finite negative _ _ =>
    if b.isWhole then sign negative ++ toString b.whole ++ ".0" else b.plain f
  | _ => b.plain f

/-- Printed form of a running program: positional with at least one place from `10 ^ -3` up to
`10 ^ 7`, scientific outside. -/
def Binary.printed (f : Format) (moderate : Bool) (b : Binary) : String :=
  match b with
  | nan => "NaN"
  | infinite negative => sign negative ++ "Infinity"
  | finite negative 0 _ => sign negative ++ "0.0"
  | finite negative m q =>
    let d := shortest f m q
    if moderate then
      sign negative ++ d.positional ++ (if 0 ≤ d.exponent then ".0" else "")
    else sign negative ++ d.scientific

/-- Whether a magnitude is printed without an exponent. -/
def isModerate (x : Float) : Bool := let a := x.abs; 1e-3 ≤ a && a < 1e7

def plainDouble (x : Float) : String := (Binary.ofDouble x).plain .double

def plainSingle (x : Float32) : String := (Binary.ofSingle x).plain .single

def sourceDouble (x : Float) : String := (Binary.ofDouble x).source .double

def printedDouble (x : Float) : String := (Binary.ofDouble x).printed .double (isModerate x)

def printedSingle (x : Float32) : String :=
  (Binary.ofSingle x).printed .single (isModerate x.toFloat)

end StackExpr.Number
