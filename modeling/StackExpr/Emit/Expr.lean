import StackExpr.Emit.Basic

/-! Emission of typed trees: operands in order, each once, then the node itself. -/
namespace StackExpr.Emit

/-- The stack kind of operands that are compared by value; booleans are `int`s. -/
def numericKind : OperandMode → StackKind
  | .numeric k => k.stackKind
  | _ => .int

/-- Pushes 0, or 1 where the jump to `yes` arrives. -/
def branchResult (yes done : Label) : List Instr :=
  [boolean false, .goto done, .label yes, boolean true, .label done]

/-- Compares two numbers on the stack and jumps; NaN must not satisfy an ordering. -/
def compareNumbers (op : Comparison) (k : StackKind) (yes : Label) : List Instr :=
  let c := Condition.ofComparison op
  let upper := op = .less ∨ op = .lessEqual
  match k with
  | .long => [.compare .lcmp, .ifZero c yes]
  | .float => [.compare (if upper then .fcmpg else .fcmpl), .ifZero c yes]
  | .double => [.compare (if upper then .dcmpg else .dcmpl), .ifZero c yes]
  | _ => [.ifInt c yes]

/-- Flips the boolean on the stack. -/
def flip : List Instr := [.intConst 1, .arith .xor .int]

/-- Adds or subtracts one in the declared kind, which may have to be cut back. -/
def bump (k : Kind) (delta : Int8) : List Instr :=
  [one k.stackKind, .arith (if delta > 0 then .add else .subtract) k.stackKind] ++
    ((PrimConv.narrow? k).map Instr.convert).toList

def updatePrimitive (k : Kind) (slot : Nat) (delta : Int8) (before : Bool) : List Instr :=
  let copy := [dupFor k.stackKind]
  [.load k.stackKind slot] ++ (if before then [] else copy) ++ bump k delta ++
    (if before then copy else []) ++ [.store k.stackKind slot]

def updateBoxed (k : Kind) (slot : Nat) (delta : Int8) (before : Bool) : Emit (List Instr) := do
  let unboxing ← unbox k
  let boxing ← box k
  let copy := [Instr.dup .dup]
  return [.load .reference slot] ++ (if before then [] else copy) ++ unboxing ++ bump k delta ++
    boxing ++ (if before then copy else []) ++ [.store .reference slot]

/-- The new value is left on the stack if `before`, else the old one. -/
def update (v : Local) (delta : Int8) (before : Bool) : Emit (List Instr) :=
  match v.type with
  | .prim .int =>
    return if before then [.increment v.slot delta.toInt16, .load .int v.slot]
      else [.load .int v.slot, .increment v.slot delta.toInt16]
  | .prim k => return updatePrimitive k v.slot delta before
  | .boxed k => updateBoxed k v.slot delta before
  | _ => return []

def complementMask (k : StackKind) : Emit (List Instr) :=
  match k with
  | .long => long (-1)
  | _ => int (-1)

/-- A key known at compile time, boxed if it is kept boxed. -/
def fixedKey (key : Constant) (stored : Ty) : Emit (List Instr) := do
  let code ← constant key
  match stored with
  | .boxed k => return code ++ (← box k)
  | _ => return code

/-- The iterator over a map on the stack, whose static type may not yet say that it is one. -/
def openSpread (source : Ty) (slot : Nat) : Emit (List Instr) := do
  let cast ← match source with
    | .record _ _ => pure []
    | _ => do
      let index ← entry (.classRef ClassName.map)
      pure [Instr.checkCast index]
  let entrySet ← call .interface .entrySet
  let iterator ← call .interface .iterator
  return cast ++ entrySet ++ iterator ++ [.store .reference slot]

/-- Puts the entries the iterator still has into the container on the stack. -/
def spreadLoop (o : Options) (slot : Nat) (head done : Label) : Emit (List Instr) := do
  let hasNext ← call .interface .hasNext
  let next ← call .interface .next
  let entryClass ← entry (.classRef ClassName.entry)
  let getKey ← call .interface .getKey
  let getValue ← call .interface .getValue
  let put ← call .virtual (.put o.container)
  return [.label head, .load .reference slot] ++ hasNext ++
    [.ifZero .eq done, .dup .dup, .load .reference slot] ++ next ++
    [.checkCast entryClass, .dup .dup] ++ getKey ++ [.swap] ++ getValue ++ put ++
    [.pop, .goto head, .label done]

mutual

def expr (o : Options) : Typed → Emit (List Instr)
  | .constant value _ => constant value
  | .read v _ => return [load v]
  | .convert operand step _ => do
    let e ← expr o operand
    return e ++ (← conversion o operand.type step)
  | .arith op k left right _ => do
    let l ← expr o left
    let r ← expr o right
    return l ++ r ++ [.arith op k.stackKind]
  | .power left right _ => do
    let l ← expr o left
    let r ← expr o right
    return l ++ r ++ (← call .static .pow)
  | .negate k operand _ => do
    let e ← expr o operand
    return e ++ [.neg k.stackKind]
  | .complement k operand _ => do
    let e ← expr o operand
    let mask ← complementMask k.stackKind
    return e ++ mask ++ [.arith .xor k.stackKind]
  | .not operand _ => do
    let e ← expr o operand
    return e ++ flip
  | .compare op mode left right _ => do
    let yes ← freshLabel
    let done ← freshLabel
    match mode with
    | .reference =>
      let l ← expr o left
      let r ← expr o right
      let equals ← call .static .equals
      return l ++ r ++ equals ++ (if op = .notEqual then flip else [])
    | .nullCheck =>
      let e ← if left.type.isNull then expr o right else expr o left
      return e ++ [if op = .notEqual then .ifNonNull yes else .ifNull yes] ++ branchResult yes done
    | mode =>
      let l ← expr o left
      let r ← expr o right
      return l ++ r ++ compareNumbers op (numericKind mode) yes ++ branchResult yes done
  | .logical op left right _ => do
    let decided ← freshLabel
    let done ← freshLabel
    let l ← expr o left
    let r ← expr o right
    let jump := Instr.ifZero (if op = .and then .eq else .ne) decided
    return l ++ [jump] ++ r ++ [jump, boolean (op = .and), .goto done, .label decided,
      boolean (op = .or), .label done]
  | .concat left right _ => do
    let l ← expr o left
    let r ← expr o right
    return l ++ r ++ (← call .virtual .concat)
  | .update v delta before _ => update v delta before
  | .assign v value _ => do
    let e ← expr o value
    return e ++ [dupFor v.type.stackKind, store v]
  | .conditional test yes no _ => do
    let other ← freshLabel
    let done ← freshLabel
    let t ← expr o test
    let y ← expr o yes
    let n ← expr o no
    return t ++ [.ifZero .eq other] ++ y ++ [.goto done, .label other] ++ n ++ [.label done]
  | .record _ entries _ => do
    let start ← new o.container
    return start ++ (← plan o entries)
  | .list items _ => do
    let start ← new o.list
    return start ++ (← elements o items)

def elements (o : Options) : List Typed → Emit (List Instr)
  | [] => return []
  | e :: rest => do
    let item ← expr o e
    let add ← call .virtual (.add o.list)
    return [.dup .dup] ++ item ++ add ++ [.pop] ++ (← elements o rest)

/-- Adds one entry to the container on the stack. -/
def planEntry (o : Options) : Entry → Emit (List Instr)
  | .fixed key stored value _ => do
    let k ← fixedKey key stored
    let v ← expr o value
    let put ← call .virtual (.put o.container)
    return [.dup .dup] ++ k ++ v ++ put ++ [.pop]
  | .computed key value _ => do
    let k ← expr o key
    let v ← expr o value
    let put ← call .virtual (.put o.container)
    return [.dup .dup] ++ k ++ v ++ put ++ [.pop]
  | .spread source _ => do
    let slot ← freshLocal
    let head ← freshLabel
    let done ← freshLabel
    let e ← expr o source
    let start ← openSpread source.type slot
    return e ++ start ++ (← spreadLoop o slot head done)

def plan (o : Options) : List Entry → Emit (List Instr)
  | [] => return []
  | e :: rest => do
    let code ← planEntry o e
    return code ++ (← plan o rest)

end

end StackExpr.Emit
