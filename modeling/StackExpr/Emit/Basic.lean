import StackExpr.Code.Instr
import StackExpr.Code.Method

/-! The state of emission, and the fragments that constants and conversions become.

A fragment is returned as a list of instructions; the state only hands out pool indices, labels and
scratch slots. -/
namespace StackExpr

structure Options where
  /-- The class of maps that object literals build. -/
  container : String
  /-- The class of lists that array literals build. -/
  list : String
  /-- Whether emitted code is refused when its stack heights are wrong. -/
  verify : Bool

def Options.default : Options := ⟨"java/util/LinkedHashMap", "java/util/ArrayList", true⟩

structure EmitState where
  pool : Pool
  nextLabel : Nat
  /-- The next slot free for scratch use. -/
  nextLocal : Nat

/-- `free` is the first slot no declared local uses. -/
def EmitState.start (free : Nat) : EmitState := ⟨.empty, 0, free⟩

abbrev Emit := StateM EmitState

namespace Emit

def entry (e : PoolEntry) : Emit Nat := fun s =>
  let (index, pool) := s.pool.add e
  (index, { s with pool })

def freshLabel : Emit Label := fun s => (s.nextLabel, { s with nextLabel := s.nextLabel + 1 })

def freshLocal : Emit Nat := fun s => (s.nextLocal, { s with nextLocal := s.nextLocal + 1 })

def call (mode : InvokeMode) (m : MethodRef) : Emit (List Instr) := do
  let index ← entry (if mode = .interface then .interfaceMethod m else .method m)
  return [.invoke mode index]

/-- Small numbers have instructions of their own; the others come from the pool. -/
def int (value : Int32) : Emit (List Instr) :=
  if -1 ≤ value ∧ value ≤ 5 then return [.intConst value]
  else if Kind.byte.fits value.toInt then return [.bytePush value.toInt8]
  else if Kind.short.fits value.toInt then return [.shortPush value.toInt16]
  else do
    let index ← entry (.int value)
    return [.ldc index]

def long (value : Int64) : Emit (List Instr) :=
  if value = 0 ∨ value = 1 then return [.longConst value]
  else do
    let index ← entry (.long value)
    return [.ldc2 index]

/-- The bits of 0, 1 and 2. -/
def floatBits : List UInt32 := [0, 0x3f800000, 0x40000000]

/-- The bits of 0 and 1. -/
def doubleBits : List UInt64 := [0, 0x3ff0000000000000]

def float (value : Float32) : Emit (List Instr) :=
  if value.toBits ∈ floatBits then return [.floatConst value]
  else do
    let index ← entry (.float value.toBits)
    return [.ldc index]

def double (value : Float) : Emit (List Instr) :=
  if value.toBits ∈ doubleBits then return [.doubleConst value]
  else do
    let index ← entry (.double value.toBits)
    return [.ldc2 index]

def boolean (value : Bool) : Instr := .intConst (if value then 1 else 0)

def constant : Constant → Emit (List Instr)
  | .int value => int value
  | .long value => long value
  | .float value => float value
  | .double value => double value
  | .boolean value => return [boolean value]
  | .string value => do
    let index ← entry (.string value)
    return [.ldc index]
  | .null => return [.nullConst]

/-- The number one as it travels on the stack. -/
def one : StackKind → Instr
  | .long => .longConst 1
  | .float => .floatConst (Float32.ofBits 0x3f800000)
  | .double => .doubleConst (Float.ofBits 0x3ff0000000000000)
  | _ => .intConst 1

def box (k : Kind) : Emit (List Instr) := call .static (.box k)

def unbox (k : Kind) : Emit (List Instr) := call .virtual (.unbox k)

/-- At most one instruction to change the stack kind, and one more to cut an `int` down. -/
def change (source target : Kind) : List Instr :=
  if source = target then []
  else
    ((PrimConv.between? source.stackKind target.stackKind).map Instr.convert).toList ++
      (if source.widensTo target then [] else ((PrimConv.narrow? target).map Instr.convert).toList)

/-- `Number` has no accessor for `char`, which goes by way of `int`. -/
def numberValue (k : Kind) : Emit (List Instr) :=
  if k = .char then do return (← call .virtual (.numberValue .int)) ++ [.convert .i2c]
  else call .virtual (.numberValue k)

/-- The class of a type, with records and arrays as the options have them. -/
def className (o : Options) : Ty → String
  | .record _ _ => o.container
  | .array _ => o.list
  | t => t.className

/-- A cast to the class a value already has is left out, unless nothing is known of the value. -/
def checkCast (o : Options) (source target : Ty) : Emit (List Instr) :=
  if className o target = className o source ∧ source ≠ .any ∧ source ≠ .null then return []
  else do
    let index ← entry (.classRef (className o target))
    return [.checkCast index]

/-- One conversion step on a value of type `source`. -/
def conversion (o : Options) (source : Ty) : Conversion → Emit (List Instr)
  | .unbox k => unbox k
  | .box k => box k
  | .change j k => return change j k
  | .numberValue k => numberValue k
  | .checkCast t => checkCast o source t
  | .stringify => call .static .stringOf

def load (v : Local) : Instr := .load v.type.stackKind v.slot

def store (v : Local) : Instr := .store v.type.stackKind v.slot

def dupFor (k : StackKind) : Instr := if k.size = 2 then .dup .dup2 else .dup .dup

def new (cls : String) : Emit (List Instr) := do
  let index ← entry (.classRef cls)
  let init ← call .special (.init cls)
  return [.new index, .dup .dup] ++ init

end Emit
end StackExpr
