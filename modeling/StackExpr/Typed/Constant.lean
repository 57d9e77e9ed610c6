import StackExpr.Number.Text
import StackExpr.Type.Basic

/-! Compile-time constants. -/
namespace StackExpr

inductive Constant where
  /-- Any constant that travels as an `int`. -/
  | int (value : Int32)
  | long (value : Int64)
  | float (value : Float32)
  | double (value : Float)
  | boolean (value : Bool)
  | string (value : String)
  | null

/-- The form a floating-point number takes as a key: whole numbers below `10 ^ 15` have no point
and no sign of zero. -/
def floatKeyText (x : Float) : String :=
  match Number.Binary.ofDouble x with
  | .finite negative m q =>
    let b := Number.Binary.finite negative m q
    if b.isWhole && b.whole < Number.tenPow 15 then
      toString (if negative then -(b.whole : Int) else b.whole)
    else b.plain .double
  | b => b.plain .double

namespace Constant

/-- The text of a constant used as a record key. -/
def keyText : Constant → String
  | int value => toString value.toInt
  | long value => toString value.toInt
  | float value => floatKeyText value.toFloat
  | double value => floatKeyText value
  | boolean value => if value then "true" else "false"
  | string value => value
  | null => "null"

def isNull : Constant → Bool
  | null => true
  | _ => false

/-- The value a variable of a type starts with when nothing is assigned to it. -/
def zero : Ty → Constant
  | .prim .boolean => boolean false
  | .prim .long => long 0
  | .prim .float => float (Float32.ofBits 0)
  | .prim .double => double (Float.ofBits 0)
  | .prim _ => int 0
  | _ => null

end Constant
end StackExpr
