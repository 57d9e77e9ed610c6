/-! Primitive kinds, the operand-stack kinds they travel as, and the order they widen in. -/
namespace StackExpr

inductive Kind where
  | byte | short | int | long | float | double | char | boolean
  deriving DecidableEq

/-- How a value travels on the operand stack; kinds narrower than `int` travel as `int`. -/
inductive StackKind where
  | int | long | float | double | reference
  deriving DecidableEq

namespace StackKind

/-- The letter that starts the names of instructions on this kind. -/
def letter : StackKind → String
  | int => "i"
  | long => "l"
  | float => "f"
  | double => "d"
  | reference => "a"

/-- Stack and local slots taken. -/
def size : StackKind → Nat
  | long | double => 2
  | _ => 1

def text : StackKind → String
  | int => "int"
  | long => "long"
  | float => "float"
  | double => "double"
  | reference => "reference"

end StackKind

namespace Kind

def all : List Kind := [byte, short, int, long, float, double, char, boolean]

def isNumeric : Kind → Bool
  | boolean => false
  | _ => true

def isIntegral : Kind → Bool
  | byte | short | int | long | char => true
  | _ => false

def isFloating : Kind → Bool
  | float | double => true
  | _ => false

def stackKind : Kind → StackKind
  | long => .long
  | float => .float
  | double => .double
  | _ => .int

def bits : Kind → Nat
  | boolean => 1
  | byte => 8
  | short | char => 16
  | int | float => 32
  | long | double => 64

/-- The least and greatest whole number of an integral kind. -/
def range? : Kind → Option (Int × Int)
  | byte => some (-128, 127)
  | short => some (-32768, 32767)
  | char => some (0, 65535)
  | int => some (-2147483648, 2147483647)
  | long => some (-9223372036854775808, 9223372036854775807)
  | _ => none

/-- Whether a whole number can be written at a kind; floating kinds take every number. -/
def fits (k : Kind) (value : Int) : Bool :=
  match k.range? with
  | some (low, high) => decide (low ≤ value) && decide (value ≤ high)
  | none => k.isFloating

def text : Kind → String
  | byte => "byte"
  | short => "short"
  | int => "int"
  | long => "long"
  | float => "float"
  | double => "double"
  | char => "char"
  | boolean => "boolean"

def wrapper : Kind → String
  | byte => "Byte"
  | short => "Short"
  | int => "Integer"
  | long => "Long"
  | float => "Float"
  | double => "Double"
  | char => "Character"
  | boolean => "Boolean"

def wrapperClass (k : Kind) : String := "java/lang/" ++ k.wrapper

def descriptor : Kind → String
  | byte => "B"
  | short => "S"
  | int => "I"
  | long => "J"
  | float => "F"
  | double => "D"
  | char => "C"
  | boolean => "Z"

def ofText? (name : String) : Option Kind := all.find? (·.text == name)

def ofWrapper? (name : String) : Option Kind := all.find? (·.wrapper == name)

/-- The one kind a numeric kind widens to directly. -/
def next? : Kind → Option Kind
  | byte => some short
  | short | char => some int
  | int => some long
  | long => some float
  | float => some double
  | double | boolean => none

/-- Everything a kind widens to, itself first; `boolean` takes no part. -/
def wider : Kind → List Kind
  | byte => [byte, short, int, long, float, double]
  | short => [short, int, long, float, double]
  | char => [char, int, long, float, double]
  | int => [int, long, float, double]
  | long => [long, float, double]
  | float => [float, double]
  | double => [double]
  | boolean => []

def widensTo (a b : Kind) : Bool := a.wider.contains b

/-- The least kind both widen to. -/
def promote? (a b : Kind) : Option Kind := a.wider.find? (b.widensTo ·)

/-- The least kind both widen to that is at least `int`. -/
def binaryPromote? (a b : Kind) : Option Kind := a.promote? b >>= (·.promote? int)

def unaryPromote? (a : Kind) : Option Kind := a.binaryPromote? a

end Kind
end StackExpr
