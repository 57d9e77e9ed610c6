import StackExpr.Check.Error
import StackExpr.Typed.Basic

/-! Operators applied to operands that are already checked. -/
namespace StackExpr

/-- The family of an operator; none for those that have no meaning here. -/
def BinaryOp.category? : BinaryOp → Option Category
  | .add | .subtract | .multiply | .divide | .modulo | .power => some .arithmetic
  | .shiftLeft | .shiftRight | .unsignedShiftRight => some .shift
  | .bitAnd | .bitOr | .bitXor => some .bitwise
  | .less | .lessEqual | .greater | .greaterEqual => some .relational
  | .equal | .notEqual => some .looseEquality
  | .strictEqual | .strictNotEqual => some .strictEquality
  | .logicalAnd | .logicalOr => some .logical
  | .nullish | .isIn | .instanceOf => none

def BinaryOp.arith : BinaryOp → ArithOp
  | .subtract => .subtract
  | .multiply => .multiply
  | .divide => .divide
  | .modulo => .remainder
  | .bitAnd => .and
  | .bitOr => .or
  | .bitXor => .xor
  | .shiftLeft => .shiftLeft
  | .shiftRight => .shiftRight
  | .unsignedShiftRight => .unsignedShiftRight
  | _ => .add

def BinaryOp.comparison : BinaryOp → Comparison
  | .notEqual | .strictNotEqual => .notEqual
  | .less => .less
  | .lessEqual => .lessEqual
  | .greater => .greater
  | .greaterEqual => .greaterEqual
  | _ => .equal

def BinaryOp.logical : BinaryOp → LogicalOp
  | .logicalAnd => .and
  | _ => .or

/-- The kind an arithmetic node works on; bitwise operators also work on booleans. -/
def OperandMode.kind : OperandMode → Kind
  | .numeric k => k
  | _ => .boolean

namespace Typed

/-- The node of an operator whose operands are converted. -/
def ofCoercion (op : BinaryOp) (c : Coercion) (left right : Typed) (span : Span) : Typed :=
  match c.category with
  | .arithmetic | .shift | .bitwise => arith op.arith c.mode.kind left right ⟨c.result, span⟩
  | .relational | .looseEquality | .strictEquality =>
    compare op.comparison c.mode left right ⟨c.result, span⟩
  | .logical => logical op.logical left right ⟨c.result, span⟩

/-- Powers are computed in `double`. -/
def ofPower (left right : Typed) (span : Span) : Except CheckError Typed :=
  match left.type.isNumeric && right.type.isNumeric,
    left.type.toPrimitive? .double, right.type.toPrimitive? .double with
  | true, some l, some r => .ok (power (left.through l) (right.through r) ⟨.prim .double, span⟩)
  | _, _, _ =>
    .error (.typeMismatch (.operands .power) (.type left.type) right.type span)

/-- A binary operator; `+` on a string concatenates. -/
def ofBinary (op : BinaryOp) (left right : Typed) (span : Span) : Except CheckError Typed :=
  match op.category? with
  | none => .error (.unsupportedOperator op.text span)
  | some category =>
    if op = .add && (left.type.isString || right.type.isString) then
      .ok (concat left.stringified right.stringified ⟨.string, span⟩)
    else if op = .power then ofPower left right span
    else
      match category.coerce? left.type right.type with
      | some c => .ok (ofCoercion op c (left.through c.left) (right.through c.right) span)
      | none => .error (.typeMismatch (.operands op) (.type left.type) right.type span)

/-- The kind a unary operator computes in and the steps to it. -/
def promoted? (admits : Kind → Bool) (t : Ty) : Option (Kind × List Conversion) := do
  let k ← t.kind?
  if admits k then
    let p ← k.unaryPromote?
    return (p, ← t.toPrimitive? p)
  else none

/-- A unary operator; `+` leaves only the promotion. -/
def ofUnary (op : UnaryOp) (operand : Typed) (span : Span) : Except CheckError Typed :=
  let mismatch (demand : Demand) : Except CheckError Typed :=
    .error (.typeMismatch (.operand op) demand operand.type span)
  match op with
  | .typeOf | .void | .delete => .error (.unsupportedOperator op.text span)
  | .not =>
    match operand.type.isBoolean, operand.type.toPrimitive? .boolean with
    | true, some steps => .ok (not (operand.through steps) ⟨.prim .boolean, span⟩)
    | _, _ => mismatch .boolean
  | .plus =>
    match promoted? Kind.isNumeric operand.type with
    | some (_, steps) => .ok ((operand.through steps).moveTo span)
    | none => mismatch .numeric
  | .minus =>
    match promoted? Kind.isNumeric operand.type with
    | some (k, steps) => .ok (negate k (operand.through steps) ⟨.prim k, span⟩)
    | none => mismatch .numeric
  | .complement =>
    match promoted? Kind.isIntegral operand.type with
    | some (k, steps) => .ok (complement k (operand.through steps) ⟨.prim k, span⟩)
    | none => mismatch .integral

def ofUpdate (op : UpdateOp) (before : Bool) (var : Local) (span : Span) :
    Except CheckError Typed :=
  if var.type.isNumeric then .ok (update var op.delta before ⟨var.type, span⟩)
  else .error (.typeMismatch (.updated op) .numeric var.type span)

/-- The steps back to the declared type after a compound assignment; numbers may narrow. -/
def compoundSteps? (found declared : Ty) : Option (List Conversion) :=
  match found.assign? declared with
  | some steps => some steps
  | none => if found.isNumeric && declared.isNumeric then found.cast? declared else none

/-- A compound assignment; the variable is read before the right-hand side. -/
def ofCompound (op : AssignOp) (binary : BinaryOp) (var : Local) (readAt : Span) (value : Typed)
    (span : Span) : Except CheckError Typed := do
  let combined ← ofBinary binary (read var ⟨var.type, readAt⟩) value span
  match compoundSteps? combined.type var.type with
  | some steps => return assign var (combined.through steps) ⟨var.type, span⟩
  | none =>
    throw (.typeMismatch (.compound op var.name) (.type var.type) combined.type span)

/-- The test of a conditional as a primitive boolean. -/
def ofTest (test : Typed) : Except CheckError Typed :=
  if test.type.isBoolean then .ok (test.through ((test.type.toPrimitive? .boolean).getD []))
  else .error (.typeMismatch .test .boolean test.type test.span)

def ofBranches (test yes no : Typed) (span : Span) : Except CheckError Typed :=
  match yes.type.unify? no.type with
  | some (type, left, right) =>
    .ok (conditional test (yes.through left) (no.through right) ⟨type, span⟩)
  | none => .error (.typeMismatch .branches (.type yes.type) no.type span)

/-- A cast has exactly the type it names. -/
def ofCast (operand : Typed) (target : Ty) (span : Span) : Except CheckError Typed :=
  match operand.type.cast? target with
  | some steps => .ok ((operand.through steps).withTag ⟨target, span⟩)
  | none => .error (.invalidCast operand.type target span)

/-- The element type of a literal list that nothing is asked of. -/
def commonType : List Typed → Ty
  | [] => .any
  | e :: rest => if rest.all (·.type == e.type) then e.type else .any

end Typed
end StackExpr
