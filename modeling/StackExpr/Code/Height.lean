import StackExpr.Code.Descriptor
import StackExpr.Code.Instr

/-! Operand-stack heights of a sequence, in slots.

Every label is reached at one height, nothing is popped off an empty stack, and the end holds
exactly the result. Only the first problem is kept, but the walk goes on to find the greatest
height. -/
namespace StackExpr

inductive HeightProblem where
  | heightsDiffer (label : Label) (recorded now : Nat)
  | neverReached (label : Label)
  | unreachable (mnemonic : String)
  | underflow (mnemonic : String) (pops height : Nat)
  | notMethod (index : Nat)
  | badDescriptor (descriptor : String)
  | wrongEnd (height expected : Nat)
  | endUnreachable
  deriving DecidableEq

def HeightProblem.text : HeightProblem → String
  | heightsDiffer label recorded now =>
    labelText label ++ s!" reached with stack height {recorded} and {now}"
  | neverReached label => labelText label ++ " is never reached"
  | unreachable mnemonic => "unreachable " ++ mnemonic
  | underflow mnemonic pops height => s!"{mnemonic} pops {pops} slots from a stack of {height}"
  | notMethod index => indexText index ++ " is not a method reference"
  | badDescriptor descriptor => "malformed method descriptor " ++ descriptor
  | wrongEnd height expected => s!"sequence ends with {height} stack slots, expected {expected}"
  | endUnreachable => "sequence ends in unreachable code"

/-- Slots an instruction takes off the stack and then puts on it. -/
structure StackEffect where
  pops : Nat
  pushes : Nat
  deriving DecidableEq

/-- The slots of a method's arguments and result. -/
def Pool.methodSlots (pool : Pool) (index : Nat) : Except HeightProblem (Nat × Nat) :=
  match pool.get? index >>= PoolEntry.method? with
  | none => .error (.notMethod index)
  | some m =>
    match Descriptor.slots? m.descriptor with
    | none => .error (.badDescriptor m.descriptor)
    | some slots => .ok slots

def Instr.effect (pool : Pool) : Instr → Except HeightProblem StackEffect
  | nullConst | intConst _ | bytePush _ | shortPush _ | floatConst _ | ldc _ | new _ => .ok ⟨0, 1⟩
  | longConst _ | doubleConst _ | ldc2 _ => .ok ⟨0, 2⟩
  | load kind _ => .ok ⟨0, kind.size⟩
  | store kind _ => .ok ⟨kind.size, 0⟩
  | increment _ _ | label _ | goto _ => .ok ⟨0, 0⟩
  | arith op kind => .ok ⟨kind.size + if op.isShift then 1 else kind.size, kind.size⟩
  | neg kind => .ok ⟨kind.size, kind.size⟩
  | convert step => .ok ⟨step.source.size, step.target.size⟩
  | compare op => .ok ⟨2 * op.kind.size, 1⟩
  | ifZero _ _ | ifNull _ | ifNonNull _ => .ok ⟨1, 0⟩
  | ifInt _ _ => .ok ⟨2, 0⟩
  | dup form => .ok ⟨form.copied + form.skipped, 2 * form.copied + form.skipped⟩
  | pop => .ok ⟨1, 0⟩
  | pop2 => .ok ⟨2, 0⟩
  | swap => .ok ⟨2, 2⟩
  | checkCast _ => .ok ⟨1, 1⟩
  | invoke mode index => do
    let (arguments, result) ← pool.methodSlots index
    return ⟨arguments + if mode = .static then 0 else 1, result⟩

/-- The state of the walk: heights recorded for labels, the present height (none after a jump away
until the next label), the greatest height and the first problem with its position. -/
structure HeightWalk where
  recorded : List (Label × Nat)
  current : Option Nat
  deepest : Nat
  problem : Option (Nat × HeightProblem)

namespace HeightWalk

def start : HeightWalk := ⟨[], some 0, 0, none⟩

def report (w : HeightWalk) (position : Nat) (p : HeightProblem) : HeightWalk :=
  match w.problem with
  | some _ => w
  | none => { w with problem := some (position, p) }

/-- Records the height a label is reached at, or compares it with the one on record. -/
def arrive (w : HeightWalk) (position : Nat) (label : Label) (height : Nat) : HeightWalk :=
  match w.recorded.lookup label with
  | some h => if h = height then w else w.report position (.heightsDiffer label h height)
  | none => { w with recorded := (label, height) :: w.recorded }

/-- At a label the walk goes on at the present height, or at the recorded one after a jump away. -/
def passLabel (w : HeightWalk) (position : Nat) (label : Label) : HeightWalk :=
  match w.current with
  | some height => w.arrive position label height
  | none =>
    match w.recorded.lookup label with
    | some height => { w with current := some height }
    | none => w.report position (.neverReached label)

/-- What a height problem leaves of an effect: nothing popped and nothing pushed. -/
def effect (w : HeightWalk) (pool : Pool) (position : Nat) (i : Instr) :
    StackEffect × HeightWalk :=
  match i.effect pool with
  | .ok e => (e, w)
  | .error p => (⟨0, 0⟩, w.report position p)

def checkPops (w : HeightWalk) (position : Nat) (i : Instr) (height pops : Nat) : HeightWalk :=
  if height < pops then w.report position (.underflow i.mnemonic pops height) else w

def branch (w : HeightWalk) (position : Nat) (i : Instr) (height : Nat) : HeightWalk :=
  match i.target? with
  | some label => w.arrive position label height
  | none => w

/-- The height after an instruction that does not leave the straight path. -/
def goOn (w : HeightWalk) (i : Instr) (height : Nat) : HeightWalk :=
  { w with
    current := match i with
      | .goto _ => none
      | _ => some height }

/-- Carries out an effect at a height. -/
def settle (w : HeightWalk) (position : Nat) (i : Instr) (height : Nat) (e : StackEffect) :
    HeightWalk :=
  let w := w.checkPops position i height e.pops
  let popped := height - e.pops
  let next := popped + e.pushes
  let w := { w with deepest := max w.deepest next }
  (w.branch position i popped).goOn i next

def passInstr (w : HeightWalk) (pool : Pool) (position : Nat) (i : Instr) : HeightWalk :=
  match w.current with
  | none => w.report position (.unreachable i.mnemonic)
  | some height =>
    let (e, w) := w.effect pool position i
    w.settle position i height e

def step (w : HeightWalk) (pool : Pool) (position : Nat) (i : Instr) : HeightWalk :=
  match i with
  | .label l => w.passLabel position l
  | i => w.passInstr pool position i

def walk (pool : Pool) : HeightWalk → (position : Nat) → List Instr → HeightWalk
  | w, _, [] => w
  | w, position, i :: rest => walk pool (w.step pool position i) (position + 1) rest

def finish (w : HeightWalk) (position resultSlots : Nat) : HeightWalk :=
  match w.current with
  | some height =>
    if height = resultSlots then w else w.report position (.wrongEnd height resultSlots)
  | none => w.report position .endUnreachable

end HeightWalk

/-- The greatest height, kept in sixteen bits, and the first problem with its position. -/
structure HeightSummary where
  maxStack : Nat
  problem : Option (Nat × HeightProblem)

def measureHeights (code : List Instr) (pool : Pool) (resultSlots : Nat) : HeightSummary :=
  let w := (HeightWalk.walk pool .start 0 code).finish code.length resultSlots
  ⟨w.deepest % 65536, w.problem⟩

end StackExpr
