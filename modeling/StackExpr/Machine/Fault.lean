import StackExpr.Code.Instr

/-! What can go wrong while code runs, and how each fault reads. -/
namespace StackExpr

inductive Fault where
  | typeError (expected found : String)
  | stackUnderflow
  | unbalancedStack (remaining : Nat)
  | divisionByZero
  | nullPointer (operation : String)
  | classCast (found target : String)
  | noSuchElement
  | unknownMethod (m : MethodRef)
  | unknownClass (name : String)
  | badConstant (index : Nat)
  | undefinedLabel (label : Label)
  | badLocal (slot : Nat)
  | unhashableKey (found : String)
  deriving DecidableEq

/-- The category of a fault. -/
inductive FaultKind where
  | typeError | stackUnderflow | unbalancedStack | arithmetic | nullPointer | classCast
  | noSuchElement | unknownMethod | unknownClass | badConstant | undefinedLabel | badLocal
  | unhashableKey
  deriving DecidableEq

def FaultKind.code : FaultKind → String
  | typeError => "tsjvm::runtime::type_error"
  | stackUnderflow => "tsjvm::runtime::stack_underflow"
  | unbalancedStack => "tsjvm::runtime::unbalanced_stack"
  | arithmetic => "tsjvm::runtime::arithmetic_exception"
  | nullPointer => "tsjvm::runtime::null_pointer_exception"
  | classCast => "tsjvm::runtime::class_cast_exception"
  | noSuchElement => "tsjvm::runtime::no_such_element"
  | unknownMethod => "tsjvm::runtime::unknown_method"
  | unknownClass => "tsjvm::runtime::unknown_class"
  | badConstant => "tsjvm::runtime::bad_constant"
  | undefinedLabel => "tsjvm::runtime::undefined_label"
  | badLocal => "tsjvm::runtime::bad_local"
  | unhashableKey => "tsjvm::runtime::unhashable_key"

def FaultKind.help? : FaultKind → Option String
  | typeError => some "The sequence does not match the operand types it was verified for"
  | unbalancedStack => some "A unit leaves exactly its result on the operand stack"
  | nullPointer => some "A null reference was unboxed, dereferenced or used as a receiver"
  | unknownMethod => some "Only the library methods the backend emits are available"
  | _ => none

namespace Fault

def kind : Fault → FaultKind
  | typeError .. => .typeError
  | stackUnderflow => .stackUnderflow
  | unbalancedStack _ => .unbalancedStack
  | divisionByZero => .arithmetic
  | nullPointer _ => .nullPointer
  | classCast .. => .classCast
  | noSuchElement => .noSuchElement
  | unknownMethod _ => .unknownMethod
  | unknownClass _ => .unknownClass
  | badConstant _ => .badConstant
  | undefinedLabel _ => .undefinedLabel
  | badLocal _ => .badLocal
  | unhashableKey _ => .unhashableKey

/-- Whether a fault belongs to one instruction rather than to the whole sequence. -/
def isLocal : Fault → Bool
  | unbalancedStack _ | undefinedLabel _ => false
  | _ => true

def message (position : Nat) : Fault → String
  | typeError expected found =>
    s!"Type error at instruction {position}: expected {expected}, found {found}"
  | stackUnderflow => s!"Operand stack underflow at instruction {position}"
  | unbalancedStack remaining =>
    s!"Sequence finished with {remaining} values on the stack, expected one"
  | divisionByZero => s!"ArithmeticException at instruction {position}: / by zero"
  | nullPointer operation =>
    s!"NullPointerException at instruction {position}: {operation} on null"
  | classCast found target =>
    s!"ClassCastException at instruction {position}: {found} cannot be cast to {target}"
  | noSuchElement => s!"NoSuchElementException at instruction {position}: iterator exhausted"
  | unknownMethod m => s!"Unknown method {m.text} at instruction {position}"
  | unknownClass name => s!"Unknown class {name} at instruction {position}"
  | badConstant index =>
    s!"Constant pool entry {indexText index} is missing or has the wrong kind " ++
      s!"at instruction {position}"
  | undefinedLabel label => s!"Jump to undefined label {labelText label}"
  | badLocal slot => s!"Local slot {slot} is out of range or unset at instruction {position}"
  | unhashableKey found => s!"A {found} cannot be used as a map key"

end Fault

/-- A fault and the position of the instruction that met it. -/
structure Failure where
  fault : Fault
  step : Nat

namespace Failure

def position? (f : Failure) : Option Nat := if f.fault.isLocal then some f.step else none

def message (f : Failure) : String := f.fault.message f.step

end Failure
end StackExpr
