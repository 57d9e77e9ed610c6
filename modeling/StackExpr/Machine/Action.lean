import StackExpr.Machine.Fault
import StackExpr.Machine.Store

/-! The state of a running program and the actions on its operand stack.

An action that fails keeps what it did before: operands already popped stay popped. -/
namespace StackExpr

structure Machine where
  /-- The operand stack, top first. -/
  stack : List Value
  store : Store
  /-- Local slots; the second slot of a wide value is empty. -/
  locals : List (Option Value)
  /-- The position of the next instruction. -/
  next : Nat

/-- A machine with so many local slots and nothing in them. -/
def Machine.start (slots : Nat) : Machine := ⟨[], .empty, List.replicate slots none, 0⟩

/-- Clears the slot above a wide value. -/
def Machine.setLocal (m : Machine) (slot : Nat) (v : Value) : Machine :=
  let locals := if v.size = 2 then m.locals.set (slot + 1) none else m.locals
  { m with locals := locals.set slot (some v) }

abbrev Action := EStateM Fault Machine

namespace Action

def push (v : Value) : Action Unit := fun m => .ok () { m with stack := v :: m.stack }

def pop : Action Value := fun m =>
  match m.stack with
  | [] => .error .stackUnderflow m
  | v :: rest => .ok v { m with stack := rest }

def peek : Action Value := fun m =>
  match m.stack with
  | [] => .error .stackUnderflow m
  | v :: _ => .ok v m

def popKind (k : StackKind) : Action Value := do
  let v ← pop
  if v.stackKind = k then return v else throw (.typeError k.text v.typeName)

def popReference : Action Value := popKind .reference

def popInt : Action Int32 := do
  match ← pop with
  | .int n => return n
  | v => throw (.typeError "int" v.typeName)

def popLong : Action Int64 := do
  match ← pop with
  | .long n => return n
  | v => throw (.typeError "long" v.typeName)

def popFloat : Action Float32 := do
  match ← pop with
  | .float x => return x
  | v => throw (.typeError "float" v.typeName)

def popDouble : Action Float := do
  match ← pop with
  | .double x => return x
  | v => throw (.typeError "double" v.typeName)

/-- Pops whole values until so many slots are covered, top first; a wide value must not be split.
`wanted` is the number of slots asked for at first. -/
def popSlots (wanted : Nat) : (remaining : Nat) → Action (List Value)
  | 0 => return []
  | 1 => do
    let v ← pop
    if v.size = 2 then throw (.typeError s!"{wanted} stack slots" "a split two-slot value")
    else return [v]
  | n + 2 => do
    let v ← pop
    if v.size = 2 then return v :: (← popSlots wanted n)
    else return v :: (← popSlots wanted (n + 1))

def pushAll (vs : List Value) : Action Unit := fun m => .ok () { m with stack := vs ++ m.stack }

/-- Copies the top slots below the slots under them. -/
def duplicate (copied skipped : Nat) : Action Unit := do
  let top ← popSlots copied copied
  let below ← popSlots skipped skipped
  pushAll (top ++ below ++ top)

def swap : Action Unit := do
  let top ← popSlots 1 1
  let below ← popSlots 1 1
  pushAll (below ++ top)

def getStore : Action Store := fun m => .ok m.store m

def setStore (s : Store) : Action Unit := fun m => .ok () { m with store := s }

/-- Builds something in the store. -/
def allocate (f : Store → Address × Store) : Action Address := fun m =>
  let (a, s) := f m.store
  .ok a { m with store := s }

def loadLocal (slot : Nat) : Action Value := fun m =>
  match m.locals[slot]? with
  | some (some v) => .ok v m
  | _ => .error (.badLocal slot) m

def storeLocal (slot : Nat) (v : Value) : Action Unit := fun m =>
  if slot + v.size ≤ m.locals.length then .ok () (m.setLocal slot v)
  else .error (.badLocal slot) m

def goTo (position : Nat) : Action Unit := fun m => .ok () { m with next := position }

end Action
end StackExpr
