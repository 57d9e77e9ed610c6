import StackExpr.Compile
import StackExpr.Machine.Step

/-! Compiling and running in one go. -/
namespace StackExpr

inductive RunError where
  | compile (e : CompileError)
  | runtime (f : Failure)

/-- Runs a compiled unit for at most so many steps. -/
def Compiled.run (c : Compiled) (steps : Nat) : Option (Except RunError Execution) :=
  (c.sequence.run steps).map (·.mapError .runtime)

def SourceUnit.run (u : SourceUnit) (o : Options) (steps : Nat) :
    Option (Except RunError Execution) :=
  match compile o u with
  | .error e => some (.error (.compile e))
  | .ok c => c.run steps

end StackExpr
