import StackExpr.Code.Pool
import StackExpr.Typed.Basic

/-! Instructions with symbolic labels and pool indices. -/
namespace StackExpr

abbrev Label := Nat

def labelText (l : Label) : String := "L" ++ toString l

inductive Condition where
  | eq | ne | lt | ge | gt | le
  deriving DecidableEq

namespace Condition

def ofComparison : Comparison → Condition
  | .equal => eq
  | .notEqual => ne
  | .less => lt
  | .lessEqual => le
  | .greater => gt
  | .greaterEqual => ge

/-- Whether the condition holds of the outcome of a comparison with zero in the middle. -/
def holds (c : Condition) (outcome : Int32) : Bool :=
  match c with
  | eq => outcome == 0
  | ne => outcome != 0
  | lt => outcome < 0
  | ge => outcome ≥ 0
  | gt => outcome > 0
  | le => outcome ≤ 0

def text : Condition → String
  | eq => "eq"
  | ne => "ne"
  | lt => "lt"
  | ge => "ge"
  | gt => "gt"
  | le => "le"

def all : List Condition := [eq, ne, lt, ge, gt, le]

def ofText? (s : String) : Option Condition := all.find? (·.text == s)

end Condition

/-- Conversions between primitives that are a single instruction. -/
inductive PrimConv where
  | i2l | i2f | i2d | l2i | l2f | l2d | f2i | f2l | f2d | d2i | d2l | d2f | i2b | i2c | i2s
  deriving DecidableEq

namespace PrimConv

def all : List PrimConv :=
  [i2l, i2f, i2d, l2i, l2f, l2d, f2i, f2l, f2d, d2i, d2l, d2f, i2b, i2c, i2s]

def source : PrimConv → StackKind
  | i2l | i2f | i2d | i2b | i2c | i2s => .int
  | l2i | l2f | l2d => .long
  | f2i | f2l | f2d => .float
  | d2i | d2l | d2f => .double

def target : PrimConv → StackKind
  | l2i | f2i | d2i | i2b | i2c | i2s => .int
  | i2l | f2l | d2l => .long
  | i2f | l2f | d2f => .float
  | i2d | l2d | f2d => .double

def between? : StackKind → StackKind → Option PrimConv
  | .int, .long => some i2l
  | .int, .float => some i2f
  | .int, .double => some i2d
  | .long, .int => some l2i
  | .long, .float => some l2f
  | .long, .double => some l2d
  | .float, .int => some f2i
  | .float, .long => some f2l
  | .float, .double => some f2d
  | .double, .int => some d2i
  | .double, .long => some d2l
  | .double, .float => some d2f
  | _, _ => none

/-- The conversion that cuts an `int` down to a narrower kind. -/
def narrow? : Kind → Option PrimConv
  | .byte => some i2b
  | .short => some i2s
  | .char => some i2c
  | _ => none

def text : PrimConv → String
  | i2l => "i2l"
  | i2f => "i2f"
  | i2d => "i2d"
  | l2i => "l2i"
  | l2f => "l2f"
  | l2d => "l2d"
  | f2i => "f2i"
  | f2l => "f2l"
  | f2d => "f2d"
  | d2i => "d2i"
  | d2l => "d2l"
  | d2f => "d2f"
  | i2b => "i2b"
  | i2c => "i2c"
  | i2s => "i2s"

def ofText? (s : String) : Option PrimConv := all.find? (·.text == s)

end PrimConv

/-- Three-way comparisons. NaN counts as less in the `l` forms and as greater in the `g` forms. -/
inductive CompareOp where
  | lcmp | fcmpl | fcmpg | dcmpl | dcmpg
  deriving DecidableEq

namespace CompareOp

def all : List CompareOp := [lcmp, fcmpl, fcmpg, dcmpl, dcmpg]

def kind : CompareOp → StackKind
  | lcmp => .long
  | fcmpl | fcmpg => .float
  | dcmpl | dcmpg => .double

/-- The outcome for operands that are not ordered. -/
def unordered : CompareOp → Int32
  | fcmpg | dcmpg => 1
  | _ => -1

def text : CompareOp → String
  | lcmp => "lcmp"
  | fcmpl => "fcmpl"
  | fcmpg => "fcmpg"
  | dcmpl => "dcmpl"
  | dcmpg => "dcmpg"

def ofText? (s : String) : Option CompareOp := all.find? (·.text == s)

end CompareOp

/-- Duplications: the top slots are copied below some of the slots under them. -/
inductive DupForm where
  | dup | dup2 | dupX1 | dupX2 | dup2X1 | dup2X2
  deriving DecidableEq

namespace DupForm

def copied : DupForm → Nat
  | dup | dupX1 | dupX2 => 1
  | dup2 | dup2X1 | dup2X2 => 2

def skipped : DupForm → Nat
  | dup | dup2 => 0
  | dupX1 | dup2X1 => 1
  | dupX2 | dup2X2 => 2

def text : DupForm → String
  | dup => "dup"
  | dup2 => "dup2"
  | dupX1 => "dup_x1"
  | dupX2 => "dup_x2"
  | dup2X1 => "dup2_x1"
  | dup2X2 => "dup2_x2"

def all : List DupForm := [dup, dup2, dupX1, dupX2, dup2X1, dup2X2]

def ofText? (s : String) : Option DupForm := all.find? (·.text == s)

end DupForm

inductive InvokeMode where
  | static | virtual | special | interface
  deriving DecidableEq

def InvokeMode.text : InvokeMode → String
  | static => "invokestatic"
  | virtual => "invokevirtual"
  | special => "invokespecial"
  | interface => "invokeinterface"

def InvokeMode.all : List InvokeMode := [.static, .virtual, .special, .interface]

def InvokeMode.ofText? (s : String) : Option InvokeMode := all.find? (·.text == s)

inductive Instr where
  | nullConst
  | intConst (value : Int32)
  | bytePush (value : Int8)
  | shortPush (value : Int16)
  | longConst (value : Int64)
  | floatConst (value : Float32)
  | doubleConst (value : Float)
  /-- A constant of one slot from the pool. -/
  | ldc (index : Nat)
  /-- A constant of two slots from the pool. -/
  | ldc2 (index : Nat)
  | load (kind : StackKind) (slot : Nat)
  | store (kind : StackKind) (slot : Nat)
  | increment (slot : Nat) (delta : Int16)
  | arith (op : ArithOp) (kind : StackKind)
  | neg (kind : StackKind)
  | convert (step : PrimConv)
  | compare (op : CompareOp)
  /-- Jumps if an `int` compares so with zero. -/
  | ifZero (c : Condition) (target : Label)
  /-- Jumps if two `int`s compare so. -/
  | ifInt (c : Condition) (target : Label)
  | ifNull (target : Label)
  | ifNonNull (target : Label)
  | goto (target : Label)
  | label (here : Label)
  | dup (form : DupForm)
  | pop
  | pop2
  | swap
  | new (index : Nat)
  | checkCast (index : Nat)
  | invoke (mode : InvokeMode) (index : Nat)

def ArithOp.text : ArithOp → String
  | add => "add"
  | subtract => "sub"
  | multiply => "mul"
  | divide => "div"
  | remainder => "rem"
  | and => "and"
  | or => "or"
  | xor => "xor"
  | shiftLeft => "shl"
  | shiftRight => "shr"
  | unsignedShiftRight => "ushr"

def ArithOp.all : List ArithOp :=
  [.add, .subtract, .multiply, .divide, .remainder, .and, .or, .xor, .shiftLeft, .shiftRight,
    .unsignedShiftRight]

def ArithOp.ofText? (s : String) : Option ArithOp := all.find? (·.text == s)

namespace Instr

def target? : Instr → Option Label
  | ifZero _ l | ifInt _ l | ifNull l | ifNonNull l | goto l => some l
  | _ => none

def index? : Instr → Option Nat
  | ldc i | ldc2 i | new i | checkCast i | invoke _ i => some i
  | _ => none

def isLabel : Instr → Bool
  | label _ => true
  | _ => false

/-- The first four slots have instructions of their own. -/
def slotName (letter action : String) (slot : Nat) : String :=
  if slot ≤ 3 then letter ++ action ++ "_" ++ toString slot else letter ++ action

/-- The name of an instruction, without its operands. -/
def mnemonic : Instr → String
  | nullConst => "aconst_null"
  | intConst value => if value = -1 then "iconst_m1" else "iconst_" ++ toString value.toInt
  | bytePush _ => "bipush"
  | shortPush _ => "sipush"
  | longConst value => "lconst_" ++ toString value.toInt
  | floatConst value => "fconst_" ++ toString value.toInt32.toInt
  | doubleConst value => "dconst_" ++ toString value.toInt32.toInt
  | ldc _ => "ldc"
  | ldc2 _ => "ldc2_w"
  | load kind slot => slotName kind.letter "load" slot
  | store kind slot => slotName kind.letter "store" slot
  | increment _ _ => "iinc"
  | arith op kind => kind.letter ++ op.text
  | neg kind => kind.letter ++ "neg"
  | convert step => step.text
  | compare op => op.text
  | ifZero c _ => "if" ++ c.text
  | ifInt c _ => "if_icmp" ++ c.text
  | ifNull _ => "ifnull"
  | ifNonNull _ => "ifnonnull"
  | goto _ => "goto"
  | label l => labelText l ++ ":"
  | dup form => form.text
  | pop => "pop"
  | pop2 => "pop2"
  | swap => "swap"
  | new _ => "new"
  | checkCast _ => "checkcast"
  | invoke mode _ => mode.text

/-- The instruction with its label or its pool index. -/
def text (i : Instr) : String :=
  match i.index?, i.target? with
  | some index, _ => i.mnemonic ++ " " ++ indexText index
  | none, some l => i.mnemonic ++ " " ++ labelText l
  | none, none => i.mnemonic

/-- The operands of an instruction, pool entries written out. -/
def operands (pool : Pool) (i : Instr) : List String :=
  match i with
  | bytePush value => [toString value.toInt]
  | shortPush value => [toString value.toInt]
  | load _ slot | store _ slot => if slot ≤ 3 then [] else [toString slot]
  | increment slot delta => [toString slot, toString delta.toInt]
  | i =>
    match i.index?, i.target? with
    | some index, _ =>
      match pool.get? index with
      | some entry => [entry.text]
      | none => [indexText index]
    | none, some l => [labelText l]
    | none, none => []

def render (pool : Pool) (i : Instr) : String :=
  " ".intercalate (i.mnemonic :: i.operands pool)

end Instr
end StackExpr
