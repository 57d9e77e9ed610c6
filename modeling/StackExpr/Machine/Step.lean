import StackExpr.Code.Sequence
import StackExpr.Machine.Library

/-! Single steps of a sequence, and runs of many. -/
namespace StackExpr

/-- The position of a label; of two the later one. -/
def labelPosition? (l : Label) : List Instr → Option Nat
  | [] => none
  | i :: rest =>
    match labelPosition? l rest, i with
    | some p, _ => some (p + 1)
    | none, .label here => if here = l then some 0 else none
    | none, _ => none

/-- The first jump to a label that is nowhere placed. -/
def danglingLabel? (code : List Instr) : Option Label :=
  (code.filterMap Instr.target?).find? fun l => (labelPosition? l code).isNone

namespace Sequence

def entry (s : Sequence) (index : Nat) : Action PoolEntry :=
  match s.pool.get? index with
  | some e => return e
  | none => throw (.badConstant index)

def className (s : Sequence) (index : Nat) : Action String := do
  match ← s.entry index with
  | .classRef name => return name
  | _ => throw (.badConstant index)

def jump (s : Sequence) (l : Label) : Action Unit :=
  match labelPosition? l s.code with
  | some p => Action.goTo p
  | none => throw (.undefinedLabel l)

def jumpIf (s : Sequence) (holds : Bool) (l : Label) : Action Unit :=
  if holds then s.jump l else return ()

open StackExpr.Action in
def step (s : Sequence) : Instr → Action Unit
  | .nullConst => push .null
  | .intConst v => push (.int v)
  | .bytePush v => push (.int v.toInt32)
  | .shortPush v => push (.int v.toInt32)
  | .longConst v => push (.long v)
  | .floatConst v => push (.float v)
  | .doubleConst v => push (.double v)
  | .ldc index => do
    match ← s.entry index with
    | .int v => push (.int v)
    | .float bits => push (.float (Float32.ofBits bits))
    | .string v => push (.string v)
    | _ => throw (.badConstant index)
  | .ldc2 index => do
    match ← s.entry index with
    | .long v => push (.long v)
    | .double bits => push (.double (Float.ofBits bits))
    | _ => throw (.badConstant index)
  | .load kind slot => do
    let v ← loadLocal slot
    if v.stackKind = kind then push v else throw (.typeError kind.text v.typeName)
  | .store kind slot => do
    let v ← popKind kind
    storeLocal slot v
  | .increment slot delta => do
    match ← loadLocal slot with
    | .int v => storeLocal slot (.int (v + delta.toInt32))
    | v => throw (.typeError "int" v.typeName)
  | .arith op kind => arith op kind
  | .neg kind => neg kind
  | .convert c => convert c
  | .compare op => compare op
  | .ifZero c l => do s.jumpIf (c.holds (← popInt)) l
  | .ifInt c l => do
    let b ← popInt
    let a ← popInt
    s.jumpIf (c.holds (threeWay (a < b) (a == b) (b < a) 0)) l
  | .ifNull l => do
    match ← popReference with
    | .null => s.jump l
    | _ => return ()
  | .ifNonNull l => do
    match ← popReference with
    | .null => return ()
    | _ => s.jump l
  | .goto l => s.jump l
  | .label _ => return ()
  | .dup form => duplicate form.copied form.skipped
  | .pop => do let _ ← popSlots 1 1
  | .pop2 => do let _ ← popSlots 2 2
  | .swap => swap
  | .new index => do instantiate (← s.className index)
  | .checkCast index => do checkCast (← s.className index)
  | .invoke _ index => do
    match (← s.entry index).method? with
    | some m => invoke m
    | none => throw (.badConstant index)

end Sequence

/-- What a finished run leaves: its result and the named locals, with the store they refer to. -/
structure Execution where
  result : Value
  locals : List (String × Value)
  store : Store

namespace Sequence

/-- The value of a named local; `null` if it was never set. -/
def localValue (m : Machine) (v : Local) : Value :=
  match m.locals[v.slot]? with
  | some (some value) => value
  | _ => .null

/-- A run ends well if its result is the only value left. -/
def finish (s : Sequence) (m : Machine) : Except Failure Execution :=
  match m.stack with
  | [result] => .ok ⟨result, s.locals.map fun v => (v.name, localValue m v), m.store⟩
  | stack => .error ⟨.unbalancedStack stack.length, s.code.length⟩

/-- Runs at most so many steps; none if the end was not reached. -/
def runFrom (s : Sequence) : (steps : Nat) → Machine → Option (Except Failure Execution)
  | 0, _ => none
  | steps + 1, m =>
    match s.code[m.next]? with
    | none => some (s.finish m)
    | some i =>
      match s.step i { m with next := m.next + 1 } with
      | .ok _ m' => s.runFrom steps m'
      | .error fault _ => some (.error ⟨fault, m.next⟩)

/-- Runs a sequence from its first instruction. Labels are resolved before anything runs. -/
def run (s : Sequence) (steps : Nat) : Option (Except Failure Execution) :=
  match danglingLabel? s.code with
  | some l => some (.error ⟨.undefinedLabel l, 0⟩)
  | none => s.runFrom steps (.start s.maxLocals)

end Sequence
end StackExpr
