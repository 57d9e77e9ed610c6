import StackExpr.Type.Kind

/-! Static types. -/
namespace StackExpr

inductive Ty where
  | prim (kind : Kind)
  | boxed (kind : Kind)
  /-- A class by its source name. -/
  | named (name : String)
  | record (key value : Ty)
  | array (element : Ty)
  /-- The type of `null` alone. -/
  | null
  /-- The type above every reference. -/
  | any
  deriving DecidableEq

/-- The key and value types of a record. -/
structure RecordTy where
  key : Ty
  value : Ty
  deriving DecidableEq

namespace Ty

def string : Ty := named "String"

def number : Ty := named "Number"

def text : Ty → String
  | prim k => k.text
  | boxed k => k.wrapper
  | named name => name
  | record key value => "Record<" ++ key.text ++ ", " ++ value.text ++ ">"
  | array element => "Array<" ++ element.text ++ ">"
  | null => "null"
  | any => "Object"

/-- The kind of a primitive or of its box. -/
def kind? : Ty → Option Kind
  | prim k | boxed k => some k
  | _ => none

def isNumeric (t : Ty) : Bool := t.kind?.any Kind.isNumeric

def isIntegral (t : Ty) : Bool := t.kind?.any Kind.isIntegral

def isBoolean (t : Ty) : Bool := t.kind? == some .boolean

def isPrimitive : Ty → Bool
  | prim _ => true
  | _ => false

def isString (t : Ty) : Bool := t == string

def isNumber (t : Ty) : Bool := t == number

def isNull (t : Ty) : Bool := t == null

def record? : Ty → Option RecordTy
  | record key value => some ⟨key, value⟩
  | _ => none

def stackKind : Ty → StackKind
  | prim k => k.stackKind
  | _ => .reference

/-- The type of a value once it is kept in a container: primitives are boxed. -/
def storage : Ty → Ty
  | prim k => boxed k
  | t => t

/-- The class a value of the type belongs to at run time. -/
def className : Ty → String
  | prim k | boxed k => k.wrapperClass
  | named "String" => "java/lang/String"
  | named "Number" => "java/lang/Number"
  | named name => String.ofList (name.toList.map fun c => if c == '.' then '/' else c)
  | record _ _ => "java/util/LinkedHashMap"
  | array _ => "java/util/ArrayList"
  | null | any => "java/lang/Object"

def descriptor : Ty → String
  | prim k => k.descriptor
  | t => "L" ++ t.className ++ ";"

/-- Whether values kept at the first type can be read at the second, both as containers keep them. -/
def storesInto : Ty → Ty → Bool
  | _, any => true
  | null, _ => true
  | prim j, prim k | prim j, boxed k | boxed j, prim k | boxed j, boxed k => j == k
  | prim j, named name | boxed j, named name => name == "Number" && j.isNumeric
  | named a, named b => a == b
  | record k v, record k' v' => k.storesInto k' && v.storesInto v'
  | array t, array t' => t.storesInto t'
  | _, _ => false

/-- Subtyping needs no run-time step, so a primitive is a subtype of itself alone. -/
def isSubtype : Ty → Ty → Bool
  | prim j, prim k => j == k
  | prim _, _ | _, prim _ => false
  | a, b => a.storesInto b

end Ty

namespace RecordTy

def toTy (r : RecordTy) : Ty := .record r.key r.value

def text (r : RecordTy) : String := r.toTy.text

/-- What a literal builds when nothing is asked of it. -/
def free : RecordTy := ⟨.string, .any⟩

/-- The record type of the values, if they are records. -/
def nested? (r : RecordTy) : Option RecordTy := r.value.record?

def hasNumericKeys (r : RecordTy) : Bool := r.key.isNumeric || r.key.isNumber

def isSubtype (a b : RecordTy) : Bool := a.key.storesInto b.key && a.value.storesInto b.value

end RecordTy
end StackExpr
