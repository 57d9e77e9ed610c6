import StackExpr.Check.Error
import StackExpr.Typed.Basic

/-! Constants read off the source: literals narrowed to a declared kind, and literal keys. -/
namespace StackExpr

/-- A numeric literal with its sign applied. -/
inductive Literal where
  | whole (value : Int64)
  | floating (value : Float)

namespace Literal

/-- The type of a whole literal that nothing is asked of. -/
def wholeType (value : Int64) : Ty :=
  .prim (if Kind.int.fits value.toInt then .int else .long)

def type : Literal → Ty
  | whole value => wholeType value
  | floating _ => .prim .double

/-- The least number has no negative. -/
def negate? : Literal → Option Literal
  | whole value => if value = Int64.minValue then none else some (whole (-value))
  | floating value => some (floating (-value))

def toDouble : Literal → Float
  | whole value => value.toFloat
  | floating value => value

end Literal

/-- A numeric literal, seen through parentheses and signs. -/
def Expr.literal? : Expr → Option Literal
  | .int value _ => some (.whole value)
  | .float value _ => some (.floating value)
  | .paren inner _ => inner.literal?
  | .unary .plus operand _ _ => operand.literal?
  | .unary .minus operand _ _ => operand.literal? >>= Literal.negate?
  | _ => none

/-- The code of a text that is a single sixteen-bit character. -/
def singleUnit? (s : String) : Option Int32 :=
  match s.toList with
  | [c] => if c.toNat < 0x10000 then some (Int32.ofNat c.toNat) else none
  | _ => none

/-- A whole number at an integral kind it fits. -/
def Constant.ofWhole? (k : Kind) (value : Int64) : Option Constant :=
  if k.isIntegral && k.fits value.toInt then
    some (if k = .long then .long value else .int value.toInt32)
  else none

/-- The constant a literal denotes at a kind; a one-character string is a `char`. -/
def Expr.constantAt? (k : Kind) (e : Expr) : Option Constant :=
  match e.literal? with
  | some (.whole value) =>
    match k with
    | .float => some (.float value.toFloat32)
    | .double => some (.double value.toFloat)
    | _ => Constant.ofWhole? k value
  | some (.floating value) =>
    match k with
    | .float => some (.float value.toFloat32)
    | .double => some (.double value)
    | _ => none
  | none =>
    match e.bare with
    | .string s _ => if k = .char then (singleUnit? s).map .int else none
    | _ => none

/-- A literal that keeps its value at the declared kind needs no conversion but boxing. -/
def Expr.narrowed? (e : Expr) (target : Ty) : Option Typed := do
  let k ← target.kind?
  let c ← e.constantAt? k
  let constant := Typed.constant c ⟨.prim k, e.span⟩
  match target with
  | .boxed k => return constant.step (.box k)
  | _ => return constant

/-- A whole literal that nothing is asked of: `int` if it fits, else `long`. -/
def Typed.ofWhole (value : Int64) (span : Span) : Typed :=
  if Kind.int.fits value.toInt then .constant (.int value.toInt32) ⟨.prim .int, span⟩
  else .constant (.long value) ⟨.prim .long, span⟩

namespace Key

/-- The name of a property in messages; of a literal key also its string form. -/
def label : Key → String
  | name text _ => text
  | string value _ => value
  | int value _ => toString value.toInt
  | float value _ => (Constant.double value).keyText
  | boolean value _ => booleanText value
  | null _ => "null"
  | computed source _ => "[" ++ source.text ++ "]"

def literal? : Key → Option Literal
  | int value _ => some (.whole value)
  | float value _ => some (.floating value)
  | _ => none

/-- The type a literal key would have as an expression. -/
def type : Key → Ty
  | boolean _ _ => .prim .boolean
  | null _ => .null
  | int value _ => Literal.wholeType value
  | float _ _ => .prim .double
  | _ => .string

end Key

namespace Literal

/-- The whole number a key literal stands for; floating keys count if they are whole and below
`9 * 10 ^ 18`. -/
def whole? : Literal → Option Int64
  | whole value => some value
  | floating value =>
    match Number.Binary.ofDouble value with
    | .finite negative m q =>
      let b := Number.Binary.finite negative m q
      if b.isWhole && b.whole < 9 * Number.tenPow 18 then
        some (Int64.ofInt (if negative then -(b.whole : Int) else b.whole))
      else none
    | _ => none

/-- The kind a numeric key is stored at; `Number` keys take the least that holds them. -/
def keyKind (declared : Ty) (l : Literal) : Kind :=
  match declared.kind? with
  | some k => k
  | none =>
    match l.whole? with
    | some value => if Kind.int.fits value.toInt then .int else .long
    | none => .double

/-- A numeric key as a constant of its kind, if it fits. -/
def keyConstant? (l : Literal) (k : Kind) : Option Constant :=
  match k with
  | .float => some (.float l.toDouble.toFloat32)
  | .double => some (.double l.toDouble)
  | k => l.whole? >>= Constant.ofWhole? k

end Literal

/-- A literal key at the declared key type: numbers stay numbers where numbers are declared, and
everything else needs a type that strings have. -/
def Key.constant (key : Key) (declared : Ty) : Except CheckError (Constant × Ty) :=
  match declared.isNumeric || declared.isNumber, key.literal? with
  | true, some l =>
    match l.keyConstant? (l.keyKind declared) with
    | some c => .ok (c, .boxed (l.keyKind declared))
    | none => .error (.keyMismatch key.label declared l.type key.span)
  | _, _ =>
    if declared.isString || declared == .any then .ok (.string key.label, .string)
    else .error (.keyMismatch key.label declared key.type key.span)

end StackExpr
