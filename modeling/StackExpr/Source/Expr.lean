import StackExpr.Source.Operator
import StackExpr.Source.Span

/-! The source tree: expressions, object literals, written types and compilation units.

An operation has two spans. Its `extent` is the stretch its own parts cover; its `span` is where it
stands in the text, and can be moved without touching the extent. -/
namespace StackExpr

/-- A type as written, before its name is resolved. -/
inductive TypeExpr where
  | simple (name : String) (span : Span)
  | generic (name : String) (args : List TypeExpr) (span : Span)

namespace TypeExpr

def name : TypeExpr → String
  | simple name _ | generic name _ _ => name

def span : TypeExpr → Span
  | simple _ span | generic _ _ span => span

end TypeExpr

/-- Members of an object literal that carry code instead of a value. -/
inductive MemberForm where
  | method | getter | setter
  deriving DecidableEq

mutual

inductive Expr where
  | int (value : Int64) (span : Span)
  | float (value : Float) (span : Span)
  | string (value : String) (span : Span)
  | boolean (value : Bool) (span : Span)
  | null (span : Span)
  | var (name : String) (span : Span)
  | binary (op : BinaryOp) (left right : Expr) (extent span : Span)
  | unary (op : UnaryOp) (operand : Expr) (extent span : Span)
  /-- `before` tells `++x` from `x++`. -/
  | update (op : UpdateOp) (before : Bool) (target : Expr) (extent span : Span)
  | assign (op : AssignOp) (target value : Expr) (extent span : Span)
  | conditional (test yes no : Expr) (extent span : Span)
  | cast (operand : Expr) (target : TypeExpr) (extent span : Span)
  | object (properties : List Property) (extent span : Span)
  | array (items : List Expr) (extent span : Span)
  | symbol (description : String) (wellKnown : Bool) (span : Span)
  | paren (inner : Expr) (span : Span)

/-- One entry of an object literal. -/
inductive Property where
  | keyed (key : Key) (value : Expr) (span : Span)
  | shorthand (name : String) (span : Span)
  | spread (source : Expr) (span : Span)
  | member (form : MemberForm) (key : Key) (span : Span)

/-- A property key as written. -/
inductive Key where
  | name (text : String) (span : Span)
  | string (value : String) (span : Span)
  | int (value : Int64) (span : Span)
  | float (value : Float) (span : Span)
  | boolean (value : Bool) (span : Span)
  | null (span : Span)
  | computed (source : Expr) (span : Span)

end

namespace Expr

def span : Expr → Span
  | int _ s | float _ s | string _ s | boolean _ s | null s | var _ s | binary _ _ _ _ s
  | unary _ _ _ s | update _ _ _ _ s | assign _ _ _ _ s | conditional _ _ _ _ s | cast _ _ _ s
  | object _ _ s | array _ _ s | symbol _ _ s | paren _ s => s

/-- Moves an expression to another place; the extents inside stay. -/
def moveTo (s : Span) : Expr → Expr
  | int v _ => int v s
  | float v _ => float v s
  | string v _ => string v s
  | boolean v _ => boolean v s
  | null _ => null s
  | var n _ => var n s
  | binary op l r e _ => binary op l r e s
  | unary op x e _ => unary op x e s
  | update op b t e _ => update op b t e s
  | assign op t v e _ => assign op t v e s
  | conditional c a b e _ => conditional c a b e s
  | cast x t e _ => cast x t e s
  | object ps e _ => object ps e s
  | array xs e _ => array xs e s
  | symbol d w _ => symbol d w s
  | paren x _ => paren x s

/-- The expression inside any number of parentheses. -/
def bare : Expr → Expr
  | paren inner _ => inner.bare
  | e => e

end Expr

namespace Key

def span : Key → Span
  | name _ s | string _ s | int _ s | float _ s | boolean _ s | null s | computed _ s => s

def moveTo (s : Span) : Key → Key
  | name t _ => name t s
  | string v _ => string v s
  | int v _ => int v s
  | float v _ => float v s
  | boolean v _ => boolean v s
  | null _ => null s
  | computed e _ => computed e s

end Key

namespace Property

def span : Property → Span
  | keyed _ _ s | shorthand _ s | spread _ s | member _ _ s => s

def moveTo (s : Span) : Property → Property
  | keyed k v _ => keyed k v s
  | shorthand n _ => shorthand n s
  | spread e _ => spread e s
  | member f k _ => member f k s

end Property

/-! Nodes placed where their parts are: leaves at the origin, operations over their parts. -/

namespace Expr

def ofBinary (op : BinaryOp) (left right : Expr) : Expr :=
  let s := left.span.merge right.span
  binary op left right s s

def ofUnary (op : UnaryOp) (operand : Expr) : Expr := unary op operand operand.span operand.span

def ofUpdate (op : UpdateOp) (before : Bool) (target : Expr) : Expr :=
  update op before target target.span target.span

def ofAssign (op : AssignOp) (target value : Expr) : Expr :=
  let s := target.span.merge value.span
  assign op target value s s

/-- The cover of the test and the last branch; the first branch lies between them. -/
def ofConditional (test yes no : Expr) : Expr :=
  let s := test.span.merge no.span
  conditional test yes no s s

def ofCast (operand : Expr) (target : TypeExpr) : Expr := cast operand target operand.span operand.span

def ofObject (properties : List Property) : Expr :=
  let s := Span.cover (properties.map Property.span)
  object properties s s

def ofArray (items : List Expr) : Expr :=
  let s := Span.cover (items.map Expr.span)
  array items s s

def ofParen (inner : Expr) : Expr := paren inner inner.span

end Expr

def Key.ofComputed (source : Expr) : Key := .computed source source.span

def Property.ofKeyed (key : Key) (value : Expr) : Property :=
  .keyed key value (key.span.merge value.span)

def Property.ofSpread (source : Expr) : Property := .spread source source.span

structure Declaration where
  name : String
  nameSpan : Span
  type : Option TypeExpr
  initializer : Option Expr
  span : Span

/-- Local declarations followed by the expression whose value the unit produces. -/
structure SourceUnit where
  name : String
  declarations : List Declaration
  body : Expr
  returns : Option TypeExpr

end StackExpr
