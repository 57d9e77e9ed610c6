import StackExpr.Conversion.Operands
import StackExpr.Source.Span
import StackExpr.Typed.Constant

/-! Typed trees: every node knows its type, and every conversion is a node of its own. -/
namespace StackExpr

/-- A local variable: its name, first slot and declared type. -/
structure Local where
  name : String
  slot : Nat
  type : Ty
  deriving DecidableEq

inductive ArithOp where
  | add | subtract | multiply | divide | remainder
  | and | or | xor
  | shiftLeft | shiftRight | unsignedShiftRight
  deriving DecidableEq

def ArithOp.isShift : ArithOp → Bool
  | shiftLeft | shiftRight | unsignedShiftRight => true
  | _ => false

inductive Comparison where
  | equal | notEqual | less | lessEqual | greater | greaterEqual
  deriving DecidableEq

def Comparison.negate : Comparison → Comparison
  | equal => notEqual
  | notEqual => equal
  | less => greaterEqual
  | lessEqual => greater
  | greater => lessEqual
  | greaterEqual => less

inductive LogicalOp where
  | and | or
  deriving DecidableEq

/-- How an entry of a literal was written. -/
inductive EntryForm where
  | literal | computed | shorthand | spread
  deriving DecidableEq

/-- What every node carries. -/
structure Tag where
  type : Ty
  span : Span
  deriving DecidableEq

/-- What every entry of a construction plan carries; `order` is its place in the literal. -/
structure EntryTag where
  order : Nat
  form : EntryForm
  keyType : Ty
  valueType : Ty
  span : Span
  deriving DecidableEq

/-- What a construction plan carries besides its entries. -/
structure PlanTag where
  type : RecordTy
  /-- Whether a declared record type was enforced. -/
  constrained : Bool
  span : Span
  deriving DecidableEq

mutual

inductive Typed where
  | constant (value : Constant) (tag : Tag)
  | read (var : Local) (tag : Tag)
  | convert (operand : Typed) (step : Conversion) (tag : Tag)
  | arith (op : ArithOp) (kind : Kind) (left right : Typed) (tag : Tag)
  | power (left right : Typed) (tag : Tag)
  | negate (kind : Kind) (operand : Typed) (tag : Tag)
  | complement (kind : Kind) (operand : Typed) (tag : Tag)
  | not (operand : Typed) (tag : Tag)
  | compare (op : Comparison) (mode : OperandMode) (left right : Typed) (tag : Tag)
  | logical (op : LogicalOp) (left right : Typed) (tag : Tag)
  | concat (left right : Typed) (tag : Tag)
  /-- Adds `delta` to a variable; `before` yields the new value, otherwise the old one. -/
  | update (var : Local) (delta : Int8) (before : Bool) (tag : Tag)
  | assign (var : Local) (value : Typed) (tag : Tag)
  | conditional (test yes no : Typed) (tag : Tag)
  | record (plan : PlanTag) (entries : List Entry) (tag : Tag)
  | list (items : List Typed) (tag : Tag)

inductive Entry where
  /-- A key known at compile time, stored at the type `stored`. -/
  | fixed (key : Constant) (stored : Ty) (value : Typed) (tag : EntryTag)
  | computed (key value : Typed) (tag : EntryTag)
  | spread (source : Typed) (tag : EntryTag)

end

namespace Typed

def tag : Typed → Tag
  | constant _ t | read _ t | convert _ _ t | arith _ _ _ _ t | power _ _ t | negate _ _ t
  | complement _ _ t | not _ t | compare _ _ _ _ t | logical _ _ _ t | concat _ _ t
  | update _ _ _ t | assign _ _ t | conditional _ _ _ t | record _ _ t | list _ t => t

def type (e : Typed) : Ty := e.tag.type

def span (e : Typed) : Span := e.tag.span

def withTag (t : Tag) : Typed → Typed
  | constant v _ => constant v t
  | read v _ => read v t
  | convert e c _ => convert e c t
  | arith op k l r _ => arith op k l r t
  | power l r _ => power l r t
  | negate k e _ => negate k e t
  | complement k e _ => complement k e t
  | not e _ => not e t
  | compare op m l r _ => compare op m l r t
  | logical op l r _ => logical op l r t
  | concat l r _ => concat l r t
  | update v d b _ => update v d b t
  | assign v e _ => assign v e t
  | conditional c a b _ => conditional c a b t
  | record p es _ => record p es t
  | list xs _ => list xs t

def moveTo (s : Span) (e : Typed) : Typed := e.withTag { e.tag with span := s }

/-- One conversion step, at the place of its operand. -/
def step (e : Typed) (c : Conversion) : Typed := convert e c ⟨c.result, e.span⟩

/-- Conversion steps in order, the last outermost. -/
def through (e : Typed) (steps : List Conversion) : Typed := steps.foldl step e

/-- The implicit steps to a declared type, if there are any. -/
def assignTo? (target : Ty) (e : Typed) : Option Typed := (e.type.assign? target).map e.through

/-- A primitive is boxed at its own kind; references stay. -/
def boxed (e : Typed) : Typed := e.through e.type.boxing

def isStringConstant : Typed → Bool
  | constant (.string _) _ => true
  | _ => false

/-- The string form of a value; a string constant is its own. -/
def stringified (e : Typed) : Typed :=
  if e.isStringConstant then e else e.through (e.type.boxing ++ [.stringify])

def constant? : Typed → Option Constant
  | constant value _ => some value
  | _ => none

/-- The constant below any conversions. -/
def innermost? : Typed → Option Constant
  | constant value _ => some value
  | convert operand _ _ => operand.innermost?
  | _ => none

end Typed

/-- The construction of one object literal, entry by entry in source order. -/
structure Plan where
  tag : PlanTag
  entries : List Entry

def Plan.toTyped (p : Plan) (tag : Tag) : Typed := .record p.tag p.entries tag

/-- A declared local and where its name stands. -/
structure LocalDecl extends Local where
  span : Span
  deriving DecidableEq

structure Initializer where
  target : Local
  value : Typed

/-- A unit ready for emission: stores into locals, then the body's value. -/
structure TypedUnit where
  name : String
  locals : List LocalDecl
  initializers : List Initializer
  body : Typed
  resultType : Ty
  /-- The first slot no declared local uses. -/
  freeSlot : Nat

end StackExpr
