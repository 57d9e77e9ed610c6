import StackExpr.Machine.Library
import StackExpr.Typed.Basic

/-! Direct evaluation of typed units, with neither code nor an operand stack.

Operands are evaluated from left to right and once. A fault ends the evaluation; only its kind is
kept, since a tree has no positions to name. -/
namespace StackExpr

/-- Variables with their values, in the order of their declarations. -/
abbrev Bindings := List (String × Value)

/-- Gives a variable another value. -/
def Bindings.set (name : String) (v : Value) : Bindings → Bindings
  | [] => []
  | (n, w) :: rest => if n = name then (n, v) :: rest else (n, w) :: Bindings.set name v rest

structure EvalState where
  bindings : Bindings
  store : Store

def EvalState.start : EvalState := ⟨[], .empty⟩

abbrev Eval := StateT EvalState (Except FaultKind)

namespace Value

def ofBool (b : Bool) : Value := int (if b then 1 else 0)

def truth : Value → Except FaultKind Bool
  | int n => .ok (n != 0)
  | _ => .error .typeError

def not (v : Value) : Except FaultKind Value := do return ofBool (!(← v.truth))

def toInt? : Value → Option Int32
  | int n => some n
  | long n => some n.toInt32
  | float x => some x.toInt32
  | double x => some x.toInt32
  | _ => none

def toLong? : Value → Option Int64
  | int n => some n.toInt64
  | long n => some n
  | float x => some x.toInt64
  | double x => some x.toInt64
  | _ => none

def toFloat? : Value → Option Float32
  | int n => some n.toFloat32
  | long n => some n.toFloat32
  | float x => some x
  | double x => some x.toFloat32
  | _ => none

def toDouble? : Value → Option Float
  | int n => some n.toFloat
  | long n => some n.toFloat
  | float x => some x.toFloat
  | double x => some x
  | _ => none

/-- A number at a numeric kind. Kinds narrower than `int` keep the low bits of the `int`. -/
def toKind? (k : Kind) (v : Value) : Option Value :=
  match k with
  | .byte => v.toInt?.map fun n => int n.toInt8.toInt32
  | .short => v.toInt?.map fun n => int n.toInt16.toInt32
  | .char => v.toInt?.map fun n => int (intOfChar (charOfInt n))
  | .int => v.toInt?.map int
  | .long => v.toLong?.map long
  | .float => v.toFloat?.map float
  | .double => v.toDouble?.map double
  | .boolean => none

/-- Arithmetic on two numbers that travel alike, but for the distance of a shift: an `int`. -/
def arith (op : ArithOp) (k : StackKind) (a b : Value) : Except FaultKind Value :=
  match k, a, b with
  | .int, int a, int b => ((intArith op a b).map int).mapError Fault.kind
  | .long, long a, int b =>
    if op.isShift then ((longArith op a b.toInt64).map long).mapError Fault.kind
    else .error .typeError
  | .long, long a, long b =>
    if op.isShift then .error .typeError
    else ((longArith op a b).map long).mapError Fault.kind
  | .float, float a, float b => ((floatArith op a b).map float).mapError Fault.kind
  | .double, double a, double b => ((doubleArith op a b).map double).mapError Fault.kind
  | _, _, _ => .error .typeError

def raise : Value → Value → Except FaultKind Value
  | double base, double exponent => .ok (double (power base exponent))
  | _, _ => .error .typeError

def negate : Value → Except FaultKind Value
  | int n => .ok (int (-n))
  | long n => .ok (long (-n))
  | float x => .ok (float (-x))
  | double x => .ok (double (-x))
  | _ => .error .typeError

def complement : Value → Except FaultKind Value
  | int n => .ok (int (~~~n))
  | long n => .ok (long (~~~n))
  | _ => .error .typeError

/-- The number one as a kind of number travels. -/
def one : StackKind → Value
  | .long => long 1
  | .float => float (Float32.ofBits 0x3f800000)
  | .double => double (Float.ofBits 0x3ff0000000000000)
  | _ => int 1

/-- One more or one less, at the kind of the number. -/
def bump (k : Kind) (delta : Int8) (v : Value) : Except FaultKind Value := do
  let w ← v.arith (if delta > 0 then .add else .subtract) k.stackKind (one k.stackKind)
  match w.toKind? k with
  | some w => return w
  | none => throw .typeError

/-- How two numbers compare; `none` if neither order nor equality holds. -/
def ordering (less equal greater : Bool) : Option Ordering :=
  if less then some .lt else if equal then some .eq else if greater then some .gt else none

def order : Value → Value → Except FaultKind (Option Ordering)
  | int a, int b => .ok (ordering (a < b) (a == b) (b < a))
  | long a, long b => .ok (ordering (a < b) (a == b) (b < a))
  | float a, float b => .ok (ordering (a < b) (a == b) (b < a))
  | double a, double b => .ok (ordering (a < b) (a == b) (b < a))
  | _, _ => .error .typeError

end Value

/-- Numbers that do not compare are unequal and in no order. -/
def Comparison.admits : Comparison → Option Ordering → Bool
  | equal, o => o == some .eq
  | notEqual, o => o != some .eq
  | less, o => o == some .lt
  | lessEqual, o => o == some .lt || o == some .eq
  | greater, o => o == some .gt
  | greaterEqual, o => o == some .gt || o == some .eq

def Value.compare (op : Comparison) (a b : Value) : Except FaultKind Value := do
  return .ofBool (op.admits (← a.order b))

namespace Value

def isNull : Value → Bool
  | null => true
  | _ => false

def concat : Value → Value → Except FaultKind Value
  | string a, string b => .ok (string (a ++ b))
  | null, _ | _, null => .error .nullPointer
  | _, _ => .error .typeError

def box (k : Kind) (v : Value) : Except FaultKind Value :=
  match v.wrap? k with
  | some w => .ok (boxed w)
  | none => .error .typeError

/-- What an accessor of a wrapper yields. -/
def access (k : Kind) : Value → Except FaultKind Value
  | boxed w =>
    match w.unwrap? k with
    | some v => .ok v
    | none => .error .typeError
  | null => .error .nullPointer
  | _ => .error .typeError

/-- A wrapper of exactly this kind is opened. -/
def unbox (k : Kind) : Value → Except FaultKind Value
  | boxed w => if w.kind = k then (boxed w).access k else .error .typeError
  | v => v.access k

end Value

/-- What one conversion step makes of a value. -/
def Conversion.convert (s : Store) (v : Value) : Conversion → Except FaultKind Value
  | unbox k => v.unbox k
  | box k => v.box k
  | change _ k =>
    match v.toKind? k with
    | some w => .ok w
    | none => .error .typeError
  | numberValue k => v.access k
  | checkCast t => if v.isInstance t.className then .ok v else .error .classCast
  | stringify => .ok (.string (s.read v).text)

namespace Constant

def value : Constant → Value
  | int n => .int n
  | long n => .long n
  | float x => .float x
  | double x => .double x
  | boolean b => .ofBool b
  | string s => .string s
  | null => .null

/-- A literal key as it is kept. -/
def kept (c : Constant) (stored : Ty) : Except FaultKind Value :=
  match stored with
  | .boxed k => c.value.box k
  | _ => .ok c.value

end Constant

namespace Eval

def fail {α : Type} (k : FaultKind) : Eval α := fun _ => .error k

def lift {α : Type} (r : Except FaultKind α) : Eval α := fun st => r.map (·, st)

def getStore : Eval Store := fun st => .ok (st.store, st)

def setStore (s : Store) : Eval Unit := fun st => .ok ((), { st with store := s })

def lookup (name : String) : Eval Value := fun st =>
  match st.bindings.lookup name with
  | some v => .ok (v, st)
  | none => .error .badLocal

def assign (name : String) (v : Value) : Eval Unit := fun st =>
  .ok ((), { st with bindings := st.bindings.set name v })

def declare (name : String) (v : Value) : Eval Unit := fun st =>
  .ok ((), { st with bindings := st.bindings ++ [(name, v)] })

def allocate (f : Store → Address × Store) : Eval Address := fun st =>
  .ok ((f st.store).1, { st with store := (f st.store).2 })

def put (a : Address) (key value : Value) : Eval Unit :=
  match key.key? with
  | some k => do setStore ((← getStore).put a k value)
  | none => fail .unhashableKey

def append (a : Address) (item : Value) : Eval Unit := do
  setStore ((← getStore).append a item)

/-- Puts the entries of a map into another, in their order. -/
def spread (a : Address) : Value → Eval Unit
  | .map b => do
    let s ← getStore
    setStore ((s.entries b).foldl (fun s e => s.put a e.1 e.2) s)
  | .null => fail .nullPointer
  | _ => fail .classCast

/-- The new value of a variable that is counted up or down. -/
def bumped (t : Ty) (delta : Int8) (v : Value) : Except FaultKind Value :=
  match t with
  | .prim k => v.bump k delta
  | .boxed k => do (← (← v.unbox k).bump k delta).box k
  | _ => .error .typeError

end Eval

mutual

def Typed.eval : Typed → Eval Value
  | .constant c _ => return c.value
  | .read v _ => Eval.lookup v.name
  | .convert operand step _ => do
    let v ← operand.eval
    Eval.lift (step.convert (← Eval.getStore) v)
  | .arith op k left right _ => do
    let a ← left.eval
    let b ← right.eval
    Eval.lift (a.arith op k.stackKind b)
  | .power left right _ => do
    let a ← left.eval
    let b ← right.eval
    Eval.lift (a.raise b)
  | .negate _ operand _ => do
    let v ← operand.eval
    Eval.lift v.negate
  | .complement _ operand _ => do
    let v ← operand.eval
    Eval.lift v.complement
  | .not operand _ => do
    let v ← operand.eval
    Eval.lift v.not
  | .compare op mode left right _ =>
    match mode with
    | .reference => do
      let a ← left.eval
      let b ← right.eval
      return .ofBool ((← Eval.getStore).equal a b != (op == .notEqual))
    | .nullCheck => do
      let v ← if left.type.isNull then right.eval else left.eval
      return .ofBool (v.isNull != (op == .notEqual))
    | _ => do
      let a ← left.eval
      let b ← right.eval
      Eval.lift (a.compare op b)
  | .logical op left right _ => do
    let v ← left.eval
    let a ← Eval.lift v.truth
    if a = (op == .or) then return .ofBool a
    else
      let w ← right.eval
      return .ofBool (← Eval.lift w.truth)
  | .concat left right _ => do
    let a ← left.eval
    let b ← right.eval
    Eval.lift (a.concat b)
  | .update v delta before _ => do
    let old ← Eval.lookup v.name
    let new ← Eval.lift (Eval.bumped v.type delta old)
    Eval.assign v.name new
    return if before then new else old
  | .assign v value _ => do
    let x ← value.eval
    Eval.assign v.name x
    return x
  | .conditional test yes no _ => do
    let v ← test.eval
    if ← Eval.lift v.truth then yes.eval else no.eval
  | .record _ entries _ => do
    let a ← Eval.allocate (·.newMap [])
    Entry.evalAll a entries
    return .map a
  | .list items _ => do
    let a ← Eval.allocate (·.newList [])
    Typed.evalItems a items
    return .list a

/-- Adds one entry to the map at an address; the key comes before the value. -/
def Entry.eval (a : Address) : Entry → Eval Unit
  | .fixed key stored value _ => do
    let k ← Eval.lift (key.kept stored)
    let v ← value.eval
    Eval.put a k v
  | .computed key value _ => do
    let k ← key.eval
    let v ← value.eval
    Eval.put a k v
  | .spread source _ => do
    let v ← source.eval
    Eval.spread a v

def Entry.evalAll (a : Address) : List Entry → Eval Unit
  | [] => return ()
  | e :: rest => do
    e.eval a
    Entry.evalAll a rest

def Typed.evalItems (a : Address) : List Typed → Eval Unit
  | [] => return ()
  | e :: rest => do
    let v ← e.eval
    Eval.append a v
    Typed.evalItems a rest

end

def Initializer.evalAll : List Initializer → Eval Unit
  | [] => return ()
  | i :: rest => do
    let v ← i.value.eval
    Eval.declare i.target.name v
    Initializer.evalAll rest

/-- The value of a unit's body after its initializers, and the state they leave. -/
def TypedUnit.eval (u : TypedUnit) : Except FaultKind (Value × EvalState) :=
  StateT.run (do Initializer.evalAll u.initializers; u.body.eval) .start

@[simp] theorem Typed.eval_withTag (tag : Tag) (e : Typed) : (e.withTag tag).eval = e.eval := by
  cases e <;> rfl

namespace Eval

variable {α β : Type} {r : Except FaultKind α} {a : α} {st st' : EvalState}

theorem ok_of_lift (h : lift r st = .ok (a, st')) : r = .ok a ∧ st' = st := by
  cases r with
  | ok b =>
    cases h
    exact ⟨rfl, rfl⟩
  | error k => cases h

/-- One evaluation after another succeeds only if both do. -/
theorem ok_of_bind {x : Eval α} {f : α → Eval β} {b : β} (h : (x >>= f) st = .ok (b, st')) :
    ∃ a st₁, x st = .ok (a, st₁) ∧ f a st₁ = .ok (b, st') := by
  simp only [Bind.bind, StateT.bind] at h
  cases hx : x st with
  | ok r =>
    rw [hx] at h
    exact ⟨r.1, r.2, rfl, h⟩
  | error k =>
    rw [hx] at h
    cases h

theorem bind_of_ok {x : Eval α} {f : α → Eval β} (h : x st = .ok (a, st')) :
    (x >>= f) st = f a st' := by
  simp only [bind, StateT.bind, h]
  rfl

/-- The first fault ends the evaluation. -/
theorem bind_of_error {x : Eval α} {f : α → Eval β} {k : FaultKind} (h : x st = .error k) :
    (x >>= f) st = .error k := by
  simp only [bind, StateT.bind, h]
  rfl

theorem lift_bind (r : Except FaultKind α) (f : α → Except FaultKind β) :
    lift (r >>= f) = lift r >>= fun a => lift (f a) := by
  funext st
  cases r <;> rfl

end Eval

end StackExpr
