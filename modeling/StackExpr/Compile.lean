import StackExpr.Check.Unit
import StackExpr.Emit.Unit

/-! From source units to code. -/
namespace StackExpr

inductive CompileError where
  | check (e : CheckError)
  | height (f : HeightFault)

namespace CompileError

def kind : CompileError → ErrorKind
  | check e => e.kind
  | height _ => .stackVerification

def span : CompileError → Span
  | check e => e.span
  | height f => f.span

def message : CompileError → String
  | check e => e.message
  | height f => s!"Stack verification failed at instruction {f.position}: {f.problem.text}"

def help? : CompileError → Option String
  | check e => e.help?
  | height _ => none

def label : CompileError → String
  | check e => e.label
  | height _ => "emitted for this unit"

end CompileError

structure Compiled where
  name : String
  resultType : Ty
  sequence : Sequence

/-- Checks a unit and emits it; nothing is emitted for a unit that does not check. -/
def compile (o : Options) (u : SourceUnit) : Except CompileError Compiled :=
  match Check.unit u with
  | .error e => .error (.check e)
  | .ok typed =>
    match Emit.unit o typed with
    | .error f => .error (.height f)
    | .ok sequence => .ok ⟨typed.name, typed.resultType, sequence⟩

end StackExpr
