import StackExpr.Number.Binary

/-! Remainder of floating-point division, with the sign of the dividend. The result is exact. -/
namespace StackExpr.Number

/-- Both operands are brought to the lower of their two exponents and divided as whole numbers. -/
def Binary.remainder : Binary → Binary → Binary
  | finite s m q, finite _ n r =>
    if n == 0 then nan
    else
      let low := min q r
      finite s (m * twoPow (q - low).toNat % (n * twoPow (r - low).toNat)) low
  | finite s m q, infinite _ => finite s m q
  | _, _ => nan

def Binary.toDouble : Binary → Float
  | nan => Float.ofBits 0x7ff8000000000000
  | infinite s => Float.ofBits (if s then 0xfff0000000000000 else 0x7ff0000000000000)
  | finite s m q => Float.ofBits (UInt64.ofNat (encode .double s m q))

def Binary.toSingle : Binary → Float32
  | nan => Float32.ofBits 0x7fc00000
  | infinite s => Float32.ofBits (if s then 0xff800000 else 0x7f800000)
  | finite s m q => Float32.ofBits (UInt32.ofNat (encode .single s m q))

def remDouble (x y : Float) : Float := ((Binary.ofDouble x).remainder (.ofDouble y)).toDouble

def remSingle (x y : Float32) : Float32 := ((Binary.ofSingle x).remainder (.ofSingle y)).toSingle

end StackExpr.Number
