import StackExpr.Type.Basic

/-! Single conversion steps, and the lists of steps that assignments and casts need.

Where no list exists the answer is `none`; the caller knows the place to blame. -/
namespace StackExpr

inductive Conversion where
  | unbox (kind : Kind)
  | box (kind : Kind)
  /-- Widening or narrowing between primitives. -/
  | change (source target : Kind)
  /-- The accessor of `Number` for a primitive. -/
  | numberValue (kind : Kind)
  /-- A checked downcast. -/
  | checkCast (target : Ty)
  /-- The string form of any reference. -/
  | stringify
  deriving DecidableEq

namespace Conversion

def text : Conversion → String
  | unbox k => "unbox " ++ k.wrapper
  | box k => "box " ++ k.text
  | change source target => source.text ++ " -> " ++ target.text
  | numberValue k => "Number." ++ k.text ++ "Value"
  | checkCast t => "checkcast " ++ t.text
  | stringify => "String.valueOf"

/-- Whether a step may lose information. -/
def isNarrowing : Conversion → Bool
  | change source target => !source.widensTo target
  | _ => false

/-- The type a step ends in. -/
def result : Conversion → Ty
  | unbox k | numberValue k | change _ k => .prim k
  | box k => .boxed k
  | checkCast t => t
  | stringify => .string

end Conversion

namespace Ty

/-- From a primitive or a box to a primitive, narrowing included. -/
def toPrimitive? (t : Ty) (target : Kind) : Option (List Conversion) :=
  let step (k : Kind) := if k = target then [] else [Conversion.change k target]
  match t with
  | prim k => some (step k)
  | boxed k => some (.unbox k :: step k)
  | _ => none

def boxing : Ty → List Conversion
  | prim k => [.box k]
  | _ => []

/-- The implicit steps that make a value of the first type fit where the second is declared. -/
def assign? : Ty → Ty → Option (List Conversion)
  | prim j, prim k =>
    if j = k then some [] else if j.widensTo k then some [.change j k] else none
  | prim j, boxed k =>
    if j = k then some [.box j]
    else if j.widensTo k then some [.change j k, .box k] else none
  | boxed j, prim k => if j = k ∨ j.widensTo k then (boxed j).toPrimitive? k else none
  | prim j, t => if (boxed j).isSubtype t then some [.box j] else none
  | s, t => if s.isSubtype t then some [] else none

/-- The steps of a cast between boxes and primitives, by way of the target's primitive. -/
def castByKind? (s t : Ty) : Option (List Conversion) := do
  let target ← t.kind?
  let steps ← s.toPrimitive? target
  match t with
  | boxed k => return steps ++ [.box k]
  | _ => return steps

/-- Downcasts are checked at run time; between record types there is nothing left to check. -/
def downcast? : Ty → Ty → Option (List Conversion)
  | _, prim _ | prim _, _ => none
  | record k v, record k' v' =>
    if RecordTy.isSubtype ⟨k', v'⟩ ⟨k, v⟩ then some [] else none
  | any, t => some [.checkCast t]
  | s, t => if t.isSubtype s then some [.checkCast t] else none

/-- The steps of an explicit cast. -/
def cast? (s t : Ty) : Option (List Conversion) :=
  if s = t then some []
  else if s.isNumeric && t.isNumeric || s.isBoolean && t.isBoolean then s.castByKind? t
  else if s.isNumber then
    match t with
    | prim k => if k.isNumeric then some [.numberValue k] else s.assign? t
    | boxed k => if k.isNumeric then some [.checkCast t] else s.assign? t
    | _ => s.assign? t
  else
    match s.assign? t with
    | some steps => some steps
    | none => s.downcast? t

/-- The common type of two branches and the steps each of them takes to it. -/
def unify? (a b : Ty) : Option (Ty × List Conversion × List Conversion) :=
  if a = b then some (a, [], [])
  else if a.isNumeric && b.isNumeric then do
    let k ← (← a.kind?).binaryPromote? (← b.kind?)
    return (prim k, ← a.toPrimitive? k, ← b.toPrimitive? k)
  else if a.isBoolean && b.isBoolean then do
    return (prim .boolean, ← a.toPrimitive? .boolean, ← b.toPrimitive? .boolean)
  else if a.isNull then do return (b.storage, [], ← b.assign? b.storage)
  else if b.isNull then do return (a.storage, ← a.assign? a.storage, [])
  else
    let joined :=
      if a.storage.isSubtype b.storage then b.storage
      else if b.storage.isSubtype a.storage then a.storage
      else any
    do return (joined, ← a.assign? joined, ← b.assign? joined)

end Ty
end StackExpr
