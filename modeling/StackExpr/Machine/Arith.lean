import StackExpr.Machine.Action
import StackExpr.Number.Remainder

/-! Arithmetic on the operand stack. Integers wrap, and shift distances count modulo the width. -/
namespace StackExpr

def intArith (op : ArithOp) (a b : Int32) : Except Fault Int32 :=
  match op with
  | .add => .ok (a + b)
  | .subtract => .ok (a - b)
  | .multiply => .ok (a * b)
  | .divide => if b = 0 then .error .divisionByZero else .ok (a / b)
  | .remainder => if b = 0 then .error .divisionByZero else .ok (a % b)
  | .and => .ok (a &&& b)
  | .or => .ok (a ||| b)
  | .xor => .ok (a ^^^ b)
  | .shiftLeft => .ok (a <<< b)
  | .shiftRight => .ok (a >>> b)
  | .unsignedShiftRight => .ok (a.toUInt32 >>> b.toUInt32).toInt32

def longArith (op : ArithOp) (a b : Int64) : Except Fault Int64 :=
  match op with
  | .add => .ok (a + b)
  | .subtract => .ok (a - b)
  | .multiply => .ok (a * b)
  | .divide => if b = 0 then .error .divisionByZero else .ok (a / b)
  | .remainder => if b = 0 then .error .divisionByZero else .ok (a % b)
  | .and => .ok (a &&& b)
  | .or => .ok (a ||| b)
  | .xor => .ok (a ^^^ b)
  | .shiftLeft => .ok (a <<< b)
  | .shiftRight => .ok (a >>> b)
  | .unsignedShiftRight => .ok (a.toUInt64 >>> b.toUInt64).toInt64

/-- Bitwise operators and shifts have no floating form. -/
def floatArith (op : ArithOp) (a b : Float32) : Except Fault Float32 :=
  match op with
  | .add => .ok (a + b)
  | .subtract => .ok (a - b)
  | .multiply => .ok (a * b)
  | .divide => .ok (a / b)
  | .remainder => .ok (Number.remSingle a b)
  | _ => .error (.typeError "integral operands" "float")

def doubleArith (op : ArithOp) (a b : Float) : Except Fault Float :=
  match op with
  | .add => .ok (a + b)
  | .subtract => .ok (a - b)
  | .multiply => .ok (a * b)
  | .divide => .ok (a / b)
  | .remainder => .ok (Number.remDouble a b)
  | _ => .error (.typeError "integral operands" "double")

/-- One conversion of a value of the right kind. -/
def PrimConv.convert? : PrimConv → Value → Option Value
  | .i2l, .int n => some (.long n.toInt64)
  | .i2f, .int n => some (.float n.toFloat32)
  | .i2d, .int n => some (.double n.toFloat)
  | .l2i, .long n => some (.int n.toInt32)
  | .l2f, .long n => some (.float n.toFloat32)
  | .l2d, .long n => some (.double n.toFloat)
  | .f2i, .float x => some (.int x.toInt32)
  | .f2l, .float x => some (.long x.toInt64)
  | .f2d, .float x => some (.double x.toFloat)
  | .d2i, .double x => some (.int x.toInt32)
  | .d2l, .double x => some (.long x.toInt64)
  | .d2f, .double x => some (.float x.toFloat32)
  | .i2b, .int n => some (.int n.toInt8.toInt32)
  | .i2c, .int n => some (.int (intOfChar (charOfInt n)))
  | .i2s, .int n => some (.int n.toInt16.toInt32)
  | _, _ => none

/-- -1, 0 or 1; a fourth outcome for operands without an order. -/
def threeWay (less equal greater : Bool) (unordered : Int32) : Int32 :=
  if less then -1 else if equal then 0 else if greater then 1 else unordered

/-- Powers as real numbers have them, except that an infinite power of ±1 is no number. -/
def power (base exponent : Float) : Float :=
  if exponent == 0 then 1
  else if exponent.isNaN || base.isNaN then Float.ofBits 0x7ff8000000000000
  else if base.abs == 1 && exponent.isInf then Float.ofBits 0x7ff8000000000000
  else Float.pow base exponent

namespace Action

def lift {α : Type} (r : Except Fault α) : Action α :=
  match r with
  | .ok a => return a
  | .error f => throw f

/-- The right operand is on top. The distance of a shift is always an `int`. -/
def arith (op : ArithOp) (k : StackKind) : Action Unit :=
  match k with
  | .int => do
    let b ← popInt
    let a ← popInt
    push (.int (← lift (intArith op a b)))
  | .long => do
    let b ← if op.isShift then do pure (← popInt).toInt64 else popLong
    let a ← popLong
    push (.long (← lift (longArith op a b)))
  | .float => do
    let b ← popFloat
    let a ← popFloat
    push (.float (← lift (floatArith op a b)))
  | .double => do
    let b ← popDouble
    let a ← popDouble
    push (.double (← lift (doubleArith op a b)))
  | .reference => throw (.typeError "numeric" "reference")

def neg (k : StackKind) : Action Unit :=
  match k with
  | .int => do push (.int (-(← popInt)))
  | .long => do push (.long (-(← popLong)))
  | .float => do push (.float (-(← popFloat)))
  | .double => do push (.double (-(← popDouble)))
  | .reference => throw (.typeError "numeric" "reference")

def convert (step : PrimConv) : Action Unit := do
  let v ← popKind step.source
  match step.convert? v with
  | some w => push w
  | none => throw (.typeError step.source.text v.typeName)

def compare (op : CompareOp) : Action Unit :=
  match op.kind with
  | .float => do
    let b ← popFloat
    let a ← popFloat
    push (.int (threeWay (a < b) (a == b) (b < a) op.unordered))
  | .double => do
    let b ← popDouble
    let a ← popDouble
    push (.int (threeWay (a < b) (a == b) (b < a) op.unordered))
  | _ => do
    let b ← popLong
    let a ← popLong
    push (.int (threeWay (a < b) (a == b) (b < a) op.unordered))

end Action
end StackExpr
