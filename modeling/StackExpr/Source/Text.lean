import StackExpr.Number.Text
import StackExpr.Source.Expr
import StackExpr.Text.Quoted

/-! Source trees written back as text. -/
namespace StackExpr

mutual

def TypeExpr.text : TypeExpr → String
  | .simple name _ => name
  | .generic name args _ => name ++ "<" ++ ", ".intercalate (TypeExpr.texts args) ++ ">"

def TypeExpr.texts : List TypeExpr → List String
  | [] => []
  | t :: rest => t.text :: TypeExpr.texts rest

end

def booleanText (b : Bool) : String := if b then "true" else "false"

mutual

def Expr.text : Expr → String
  | .int value _ => toString value.toInt
  | .float value _ => Number.sourceDouble value
  | .string value _ => Text.quoted value
  | .boolean value _ => booleanText value
  | .null _ => "null"
  | .var name _ => name
  | .binary op left right _ _ => left.text ++ " " ++ op.text ++ " " ++ right.text
  | .unary op operand _ _ => op.text ++ op.gap ++ operand.text
  | .update op before target _ _ =>
    if before then op.text ++ target.text else target.text ++ op.text
  | .assign op target value _ _ => target.text ++ " " ++ op.text ++ " " ++ value.text
  | .conditional test yes no _ _ => test.text ++ " ? " ++ yes.text ++ " : " ++ no.text
  | .cast operand target _ _ => operand.text ++ " as " ++ target.text
  | .object [] _ _ => "\x7b\x7d"
  | .object (p :: rest) _ _ =>
    "\x7b " ++ ", ".intercalate (p.text :: Property.texts rest) ++ " \x7d"
  | .array items _ _ => "[" ++ ", ".intercalate (Expr.texts items) ++ "]"
  | .symbol description wellKnown _ =>
    if wellKnown then "Symbol." ++ description else "Symbol(" ++ Text.quoted description ++ ")"
  | .paren inner _ => "(" ++ inner.text ++ ")"

def Expr.texts : List Expr → List String
  | [] => []
  | e :: rest => e.text :: Expr.texts rest

def Property.text : Property → String
  | .keyed key value _ => key.text ++ ": " ++ value.text
  | .shorthand name _ => name
  | .spread source _ => "..." ++ source.text
  | .member .method key _ => key.text ++ "() \x7b\x7d"
  | .member .getter key _ => "get " ++ key.text ++ "() \x7b\x7d"
  | .member .setter key _ => "set " ++ key.text ++ "(value) \x7b\x7d"

def Property.texts : List Property → List String
  | [] => []
  | p :: rest => p.text :: Property.texts rest

def Key.text : Key → String
  | .name text _ => text
  | .string value _ => Text.quoted value
  | .int value _ => toString value.toInt
  | .float value _ => Number.sourceDouble value
  | .boolean value _ => booleanText value
  | .null _ => "null"
  | .computed source _ => "[" ++ source.text ++ "]"

end

end StackExpr
