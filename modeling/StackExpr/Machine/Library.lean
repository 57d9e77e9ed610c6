import StackExpr.Code.Method
import StackExpr.Machine.Arith
import StackExpr.Machine.Datum

/-! The library methods that running code can call. Each pops its arguments, the receiver last, and
pushes its result if it has one. -/
namespace StackExpr

inductive Method where
  | box (kind : Kind)
  | unbox (kind : Kind)
  | numberValue (kind : Kind)
  | stringOf
  | concat
  | equals
  | pow
  /-- The constructor of a container class. -/
  | init (cls : String)
  | put
  | add
  | entrySet
  | iterator
  | hasNext
  | next
  | getKey
  | getValue
  deriving DecidableEq

namespace Method

def wrapperMethods : List (MethodRef × Method) :=
  Kind.all.flatMap fun k => [(.box k, box k), (.unbox k, unbox k)]

/-- `Number` knows every numeric kind but `char`. -/
def numberMethods : List (MethodRef × Method) :=
  (Kind.all.filter fun k => k.isNumeric && k != .char).map fun k => (.numberValue k, numberValue k)

def containerMethods : List (MethodRef × Method) :=
  (ClassName.maps.flatMap fun c => [(.init c, init c), (.put c, put)]) ++
    (ClassName.lists.flatMap fun c => [(.init c, init c), (.add c, add)]) ++
    [(.put ClassName.map, put), (.add ClassName.list, add)]

def otherMethods : List (MethodRef × Method) :=
  [(.stringOf, stringOf), (.concat, concat), (.equals, equals), (.pow, pow),
    (.entrySet, entrySet), (.iterator, iterator), (.hasNext, hasNext), (.next, next),
    (.getKey, getKey), (.getValue, getValue)]

/-- All methods with their references. -/
def all : List (MethodRef × Method) :=
  wrapperMethods ++ numberMethods ++ containerMethods ++ otherMethods

/-- Methods are found by the text of their reference. -/
def find? (m : MethodRef) : Option Method := (all.find? (·.1.text == m.text)).map (·.2)

end Method

namespace Action

/-- The fault of calling a method on the wrong receiver. -/
def badReceiver (expected operation : String) (receiver : Value) : Fault :=
  match receiver with
  | .null => .nullPointer operation
  | v => .typeError expected v.typeName

def box (k : Kind) : Action Unit := do
  let v ← popKind k.stackKind
  match v.wrap? k with
  | some w => push (.boxed w)
  | none => throw (.typeError k.text v.typeName)

/-- An accessor of a wrapper. A wrapper's own accessor takes only its own kind. -/
def unbox (k : Kind) (own : Bool) : Action Unit := do
  match ← popReference with
  | .boxed w =>
    if own && w.kind != k then throw (.typeError k.wrapper w.kind.wrapper)
    else
      match w.unwrap? k with
      | some v => push v
      | none => throw (.typeError ClassName.number w.kind.wrapper)
  | .null => throw (.nullPointer (k.text ++ "Value"))
  | v => throw (.typeError ClassName.number v.typeName)

def stringOf : Action Unit := do
  let v ← popReference
  push (.string ((← getStore).read v).text)

def concat : Action Unit := do
  let last ← popReference
  let first ← popReference
  match first, last with
  | .string a, .string b => push (.string (a ++ b))
  | .null, _ | _, .null => throw (.nullPointer "String.concat")
  | v, _ => throw (.typeError ClassName.string v.typeName)

def equals : Action Unit := do
  let b ← popReference
  let a ← popReference
  push (.int (if (← getStore).equal a b then 1 else 0))

def pow : Action Unit := do
  let exponent ← popDouble
  let base ← popDouble
  push (.double (power base exponent))

def init (cls : String) : Action Unit := do
  match ← popReference with
  | .map _ | .list _ => return ()
  | v => throw (.typeError cls v.typeName)

/-- Leaves the value the key had before, or `null`. -/
def put : Action Unit := do
  let value ← popReference
  let key ← popReference
  match ← popReference with
  | .map a =>
    match key.key? with
    | some k =>
      let s ← getStore
      setStore (s.put a k value)
      push (((s.entries a).get? k).getD .null)
    | none => throw (.unhashableKey key.typeName)
  | v => throw (badReceiver ClassName.map "Map.put" v)

def add : Action Unit := do
  let item ← popReference
  match ← popReference with
  | .list a =>
    setStore ((← getStore).append a item)
    push (.int 1)
  | v => throw (badReceiver ClassName.list "List.add" v)

def entrySet : Action Unit := do
  match ← popReference with
  | .map a => push (.entrySet ((← getStore).entries a))
  | v => throw (badReceiver ClassName.map "Map.entrySet" v)

def iterator : Action Unit := do
  match ← popReference with
  | .entrySet es => push (.iterator (← allocate (·.newCursor ⟨es, 0⟩)))
  | v => throw (badReceiver ClassName.set "Set.iterator" v)

def hasNext : Action Unit := do
  match ← popReference with
  | .iterator a => push (.int (if ((← getStore).cursor a).hasNext then 1 else 0))
  | v => throw (badReceiver ClassName.iterator "Iterator.hasNext" v)

def next : Action Unit := do
  match ← popReference with
  | .iterator a =>
    let s ← getStore
    match (s.cursor a).next? with
    | some ((k, v), c) =>
      setStore (s.setCursor a c)
      push (.entry k v)
    | none => throw .noSuchElement
  | v => throw (badReceiver ClassName.iterator "Iterator.next" v)

def getKey : Action Unit := do
  match ← popReference with
  | .entry k _ => push (.ofKey k)
  | v => throw (badReceiver ClassName.entry "Map$Entry.getKey" v)

def getValue : Action Unit := do
  match ← popReference with
  | .entry _ value => push value
  | v => throw (badReceiver ClassName.entry "Map$Entry.getValue" v)

end Action

def Method.run : Method → Action Unit
  | box k => Action.box k
  | unbox k => Action.unbox k true
  | numberValue k => Action.unbox k false
  | stringOf => Action.stringOf
  | concat => Action.concat
  | equals => Action.equals
  | pow => Action.pow
  | init cls => Action.init cls
  | put => Action.put
  | add => Action.add
  | entrySet => Action.entrySet
  | iterator => Action.iterator
  | hasNext => Action.hasNext
  | next => Action.next
  | getKey => Action.getKey
  | getValue => Action.getValue

namespace Action

def invoke (m : MethodRef) : Action Unit :=
  match Method.find? m with
  | some method => method.run
  | none => throw (.unknownMethod m)

/-- A fresh empty container of a class. -/
def instantiate (cls : String) : Action Unit := do
  if cls ∈ ClassName.maps then push (.map (← allocate (·.newMap [])))
  else if cls ∈ ClassName.lists then push (.list (← allocate (·.newList [])))
  else throw (.unknownClass cls)

end Action

/-- Whether a reference is an instance of a class; `null` is one of every class. -/
def Value.isInstance (cls : String) : Value → Bool
  | .null => true
  | .boxed w =>
    cls == ClassName.object || cls == w.kind.wrapperClass ||
      (cls == ClassName.number && w.kind.isNumeric && w.kind != .char)
  | .string _ => cls == ClassName.object || cls == ClassName.string
  | .map _ => cls == ClassName.object || cls == ClassName.map || ClassName.maps.contains cls
  | .list _ => cls == ClassName.object || cls == ClassName.list || ClassName.lists.contains cls
  | .entrySet _ => cls == ClassName.object || cls == ClassName.set
  | .iterator _ => cls == ClassName.object || cls == ClassName.iterator
  | .entry _ _ => cls == ClassName.object || cls == ClassName.entry
  | .int _ | .long _ | .float _ | .double _ => cls == ClassName.object

/-- Checks a cast of a value. Every class but `Object` refuses primitives as no references. -/
def Value.checkCast (cls : String) (v : Value) : Except Fault Unit :=
  if v.isInstance cls then .ok ()
  else if v.stackKind = .reference then .error (.classCast v.typeName cls)
  else .error (.typeError "reference" v.typeName)

def Action.checkCast (cls : String) : Action Unit := do
  Action.lift ((← Action.peek).checkCast cls)

end StackExpr
