import StackExpr.Code.Height
import StackExpr.Code.Sequence
import StackExpr.Emit.Expr

/-! Emission of units. -/
namespace StackExpr

/-- A sequence whose stack heights are wrong. -/
structure HeightFault where
  position : Nat
  problem : HeightProblem
  span : Span

namespace Emit

def initializers (o : Options) : List Initializer → Emit (List Instr)
  | [] => return []
  | i :: rest => do
    let code ← expr o i.value
    return code ++ [store i.target] ++ (← initializers o rest)

/-- Stores into the locals, then the body's value. -/
def unitCode (o : Options) (u : TypedUnit) : Emit (List Instr) := do
  let stores ← initializers o u.initializers
  return stores ++ (← expr o u.body)

/-- The sequence of a unit. Wrong stack heights are an error only if the options ask for it. -/
def unit (o : Options) (u : TypedUnit) : Except HeightFault Sequence :=
  let (code, s) := (unitCode o u).run (.start u.freeSlot)
  let heights := measureHeights code s.pool u.body.type.stackKind.size
  match o.verify, heights.problem with
  | true, some (position, problem) => .error ⟨position, problem, u.body.span⟩
  | _, _ => .ok ⟨code, s.pool, heights.maxStack, s.nextLocal, u.locals.map (·.toLocal), u.resultType⟩

end Emit
end StackExpr
