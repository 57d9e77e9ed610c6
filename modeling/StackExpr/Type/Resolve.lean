import StackExpr.Source.Expr
import StackExpr.Type.Basic

/-! Resolution of written types. -/
namespace StackExpr

/-- Where a written type stands: `number` means `Number` as a record key, `double` elsewhere. -/
inductive TypePlace where
  | value | recordKey
  deriving DecidableEq

/-- Why a written type names nothing. -/
inductive TypeExprFault where
  | wantsTwo (name : String)
  | wantsOne
  | unknownGeneric (name : String)
  deriving DecidableEq

def TypeExprFault.text : TypeExprFault → String
  | wantsTwo name => name ++ " takes exactly two type arguments"
  | wantsOne => "Array takes exactly one type argument"
  | unknownGeneric name => "generic type " ++ name ++ " is not supported"

/-- The offending part of a written type and what is wrong with it. -/
structure BadTypeExpr where
  written : TypeExpr
  fault : TypeExprFault

namespace TypeExpr

def resolveName (place : TypePlace) (name : String) : Ty :=
  match Kind.ofText? name, Kind.ofWrapper? name with
  | some k, _ => .prim k
  | none, some k => .boxed k
  | none, none =>
    match name with
    | "number" => if place = .recordKey then .number else .prim .double
    | "Number" => .number
    | "string" | "String" => .string
    | "Object" | "any" | "unknown" => .any
    | other => .named other

/-- Keys resolve before values, so of two faults the one further left is reported. -/
def resolveAt (place : TypePlace) : TypeExpr → Except BadTypeExpr Ty
  | .simple name _ => .ok (resolveName place name)
  | .generic name [key, value] span =>
    if name = "Record" ∨ name = "Map" then do
      let k ← key.resolveAt .recordKey
      let v ← value.resolveAt .value
      return .record k v
    else .error ⟨.generic name [key, value] span,
      if name = "Array" then .wantsOne else .unknownGeneric name⟩
  | .generic name [element] span =>
    if name = "Array" then do return .array (← element.resolveAt .value)
    else .error ⟨.generic name [element] span,
      if name = "Record" ∨ name = "Map" then .wantsTwo name else .unknownGeneric name⟩
  | .generic name args span =>
    .error ⟨.generic name args span,
      if name = "Record" ∨ name = "Map" then .wantsTwo name
      else if name = "Array" then .wantsOne else .unknownGeneric name⟩

def resolve (t : TypeExpr) : Except BadTypeExpr Ty := t.resolveAt .value

end TypeExpr
end StackExpr
