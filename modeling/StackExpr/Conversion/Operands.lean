import StackExpr.Conversion.Basic

/-! What a binary operator makes of its operand types. -/
namespace StackExpr

/-- Families of binary operators that treat their operands alike. -/
inductive Category where
  | arithmetic | shift | bitwise | relational | looseEquality | strictEquality | logical
  deriving DecidableEq

/-- What the operator works on once its operands are converted. -/
inductive OperandMode where
  | numeric (kind : Kind)
  | boolean
  | reference
  /-- A reference against the `null` type. -/
  | nullCheck
  deriving DecidableEq

structure Coercion where
  category : Category
  mode : OperandMode
  result : Ty
  left : List Conversion
  right : List Conversion
  deriving DecidableEq

namespace Coercion

/-- Both operands at their common promoted kind. -/
def numeric? (category : Category) (l r : Ty) (result : Kind → Ty) : Option Coercion := do
  let k ← (← l.kind?).binaryPromote? (← r.kind?)
  return ⟨category, .numeric k, result k, ← l.toPrimitive? k, ← r.toPrimitive? k⟩

def boolean? (category : Category) (l r : Ty) : Option Coercion := do
  return ⟨category, .boolean, .prim .boolean, ← l.toPrimitive? .boolean, ← r.toPrimitive? .boolean⟩

/-- Each side is promoted on its own, and the distance is always an `int`. -/
def shift? (l r : Ty) : Option Coercion :=
  if l.isIntegral && r.isIntegral then do
    let k ← (← l.kind?).unaryPromote?
    return ⟨.shift, .numeric k, .prim k, ← l.toPrimitive? k, ← r.toPrimitive? .int⟩
  else none

/-- Numbers and booleans compare by value, a reference with `null` by identity, and references by
value equality if one side's type is below the other's. -/
def equality? (category : Category) (l r : Ty) : Option Coercion :=
  if l.isNumeric && r.isNumeric then numeric? category l r fun _ => .prim .boolean
  else if l.isBoolean && r.isBoolean then boolean? category l r
  else if l.isNull || r.isNull then
    if (if l.isNull then r else l).isPrimitive then none
    else some ⟨category, .nullCheck, .prim .boolean, [], []⟩
  else if l.storage.isSubtype r.storage || r.storage.isSubtype l.storage then
    some ⟨category, .reference, .prim .boolean, l.boxing, r.boxing⟩
  else none

end Coercion

/-- The result type of an operator and the steps each operand takes. -/
def Category.coerce? (category : Category) (l r : Ty) : Option Coercion :=
  match category with
  | .arithmetic => Coercion.numeric? category l r .prim
  | .relational => Coercion.numeric? category l r fun _ => .prim .boolean
  | .shift => Coercion.shift? l r
  | .bitwise =>
    if l.isBoolean && r.isBoolean then Coercion.boolean? category l r
    else if l.isIntegral && r.isIntegral then Coercion.numeric? category l r .prim
    else none
  | .looseEquality | .strictEquality => Coercion.equality? category l r
  | .logical => if l.isBoolean && r.isBoolean then Coercion.boolean? category l r else none

end StackExpr
