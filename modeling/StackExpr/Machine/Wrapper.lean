import StackExpr.Number.Text
import StackExpr.Type.Kind

/-! Wrapper objects: primitives kept as references. -/
namespace StackExpr

inductive Wrapper where
  | byte (value : Int8)
  | short (value : Int16)
  | char (unit : UInt16)
  | int (value : Int32)
  | long (value : Int64)
  | float (value : Float32)
  | double (value : Float)
  | boolean (value : Bool)

/-- The low sixteen bits. -/
def charOfInt (n : Int32) : UInt16 := n.toUInt32.toUInt16

def intOfChar (c : UInt16) : Int32 := c.toUInt32.toInt32

namespace Wrapper

def kind : Wrapper → Kind
  | byte _ => .byte
  | short _ => .short
  | char _ => .char
  | int _ => .int
  | long _ => .long
  | float _ => .float
  | double _ => .double
  | boolean _ => .boolean

/-- What makes two wrappers equal: the same kind and the same bits. Every NaN has the same bits. -/
def identity : Wrapper → Kind × Int
  | byte v => (.byte, v.toInt)
  | short v => (.short, v.toInt)
  | char v => (.char, v.toNat)
  | int v => (.int, v.toInt)
  | long v => (.long, v.toInt)
  | float v => (.float, v.toBits.toNat)
  | double v => (.double, v.toBits.toNat)
  | boolean v => (.boolean, if v then 1 else 0)

instance : BEq Wrapper := ⟨fun a b => a.identity == b.identity⟩

/-- A unit that is no character by itself prints as the replacement character. -/
def charText (c : UInt16) : String :=
  if 0xd800 ≤ c.toNat ∧ c.toNat ≤ 0xdfff then "�" else (Char.ofNat c.toNat).toString

def text : Wrapper → String
  | byte v => toString v.toInt
  | short v => toString v.toInt
  | char c => charText c
  | int v => toString v.toInt
  | long v => toString v.toInt
  | float v => Number.printedSingle v
  | double v => Number.printedDouble v
  | boolean v => if v then "true" else "false"

/-- Accessors convert between numeric kinds; booleans convert to nothing else. -/
def toInt? : Wrapper → Option Int32
  | byte v => some v.toInt32
  | short v => some v.toInt32
  | char c => some (intOfChar c)
  | int v => some v
  | long v => some v.toInt32
  | float v => some v.toInt32
  | double v => some v.toInt32
  | boolean _ => none

def toLong? : Wrapper → Option Int64
  | long v => some v
  | float v => some v.toInt64
  | double v => some v.toInt64
  | w => w.toInt?.map Int32.toInt64

def toDouble? : Wrapper → Option Float
  | long v => some v.toFloat
  | float v => some v.toFloat
  | double v => some v
  | w => w.toInt?.map Int32.toFloat

/-- A `long` is rounded once; other kinds fit a `double` first, and a `float` comes back from there
as it was. -/
def toFloat? : Wrapper → Option Float32
  | long v => some v.toFloat32
  | float v => some v
  | w => w.toDouble?.map Float.toFloat32

end Wrapper
end StackExpr
