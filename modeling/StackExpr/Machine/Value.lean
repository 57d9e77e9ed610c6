import StackExpr.Machine.Wrapper

/-! Values of a running program. Containers are references into a store. -/
namespace StackExpr

/-- A key of a map. -/
inductive MapKey where
  | null
  | string (value : String)
  | boxed (w : Wrapper)

namespace MapKey

/-- Wrappers are equal by kind and bits, and a string equals no wrapper. -/
def same : MapKey → MapKey → Bool
  | null, null => true
  | string a, string b => a == b
  | boxed a, boxed b => a == b
  | _, _ => false

instance : BEq MapKey := ⟨same⟩

def text : MapKey → String
  | null => "null"
  | string value => value
  | boxed w => w.text

end MapKey

abbrev Address := Nat

inductive Value where
  /-- Every integral kind up to `int`, and booleans as 0 and 1. -/
  | int (value : Int32)
  | long (value : Int64)
  | float (value : Float32)
  | double (value : Float)
  | null
  | boxed (w : Wrapper)
  | string (value : String)
  | map (ref : Address)
  | list (ref : Address)
  /-- The entries a map had when it was asked for them. -/
  | entrySet (entries : List (MapKey × Value))
  | iterator (ref : Address)
  | entry (key : MapKey) (value : Value)

abbrev MapEntries := List (MapKey × Value)

namespace Value

def typeName : Value → String
  | int _ => "int"
  | long _ => "long"
  | float _ => "float"
  | double _ => "double"
  | null => "null"
  | boxed w => w.kind.wrapper
  | string _ => "String"
  | map _ => "Map"
  | list _ => "List"
  | entrySet _ => "Set"
  | iterator _ => "Iterator"
  | entry _ _ => "Map$Entry"

def stackKind : Value → StackKind
  | int _ => .int
  | long _ => .long
  | float _ => .float
  | double _ => .double
  | _ => .reference

def size (v : Value) : Nat := v.stackKind.size

/-- The wrapper of a stack value at a kind that travels so; narrow kinds keep the low bits. -/
def wrap? : Kind → Value → Option Wrapper
  | .byte, int v => some (.byte v.toInt8)
  | .short, int v => some (.short v.toInt16)
  | .char, int v => some (.char (charOfInt v))
  | .int, int v => some (.int v)
  | .boolean, int v => some (.boolean (v != 0))
  | .long, long v => some (.long v)
  | .float, float v => some (.float v)
  | .double, double v => some (.double v)
  | _, _ => none

def key? : Value → Option MapKey
  | null => some .null
  | string value => some (.string value)
  | boxed w => some (.boxed w)
  | _ => none

def ofKey : MapKey → Value
  | .null => null
  | .string value => string value
  | .boxed w => boxed w

end Value

/-- What a wrapper's accessor for a kind yields. -/
def Wrapper.unwrap? (w : Wrapper) (k : Kind) : Option Value :=
  match w, k with
  | .boolean v, .boolean => some (.int (if v then 1 else 0))
  | .boolean _, _ | _, .boolean => none
  | w, .byte => w.toInt?.map fun v => .int v.toInt8.toInt32
  | w, .short => w.toInt?.map fun v => .int v.toInt16.toInt32
  | w, .char => w.toInt?.map fun v => .int (intOfChar (charOfInt v))
  | w, .int => w.toInt?.map .int
  | w, .long => w.toLong?.map .long
  | w, .float => w.toFloat?.map .float
  | w, .double => w.toDouble?.map .double

end StackExpr
