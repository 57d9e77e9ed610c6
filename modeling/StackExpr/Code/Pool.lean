import StackExpr.Number.Text
import StackExpr.Text.Quoted

/-! The pool of constants that code refers to by index. -/
namespace StackExpr

/-- A method by owner, name and descriptor. -/
structure MethodRef where
  owner : String
  name : String
  descriptor : String
  deriving DecidableEq

def MethodRef.text (m : MethodRef) : String := m.owner ++ "." ++ m.name ++ m.descriptor

/-- Floating-point constants are kept by their bits, so that equal entries are the same entry. -/
inductive PoolEntry where
  | classRef (name : String)
  | string (value : String)
  | int (value : Int32)
  | float (bits : UInt32)
  | long (value : Int64)
  | double (bits : UInt64)
  | method (m : MethodRef)
  | interfaceMethod (m : MethodRef)
  deriving DecidableEq

namespace PoolEntry

def text : PoolEntry → String
  | classRef name => name
  | string value => Text.quoted value
  | int value => toString value.toInt
  | float bits => Number.plainSingle (Float32.ofBits bits) ++ "f"
  | long value => toString value.toInt ++ "L"
  | double bits => Number.plainDouble (Float.ofBits bits) ++ "d"
  | method m | interfaceMethod m => m.text

def method? : PoolEntry → Option MethodRef
  | method m | interfaceMethod m => some m
  | _ => none

/-- Whether loading the entry takes two stack slots. -/
def isWide : PoolEntry → Bool
  | long _ | double _ => true
  | _ => false

end PoolEntry

/-- Distinct entries in order of first use; indices start at one. -/
structure Pool where
  entries : List PoolEntry

namespace Pool

def empty : Pool := ⟨[]⟩

def size (p : Pool) : Nat := p.entries.length

/-- The index of an entry, which is added at its first use. -/
def add (p : Pool) (e : PoolEntry) : Nat × Pool :=
  (p.entries.idxOf e + 1, if e ∈ p.entries then p else ⟨p.entries ++ [e]⟩)

def get? (p : Pool) : Nat → Option PoolEntry
  | 0 => none
  | i + 1 => p.entries[i]?

def ofList (es : List PoolEntry) : Pool := es.foldl (fun p e => (p.add e).2) empty

/-- Every entry with its index. -/
def toList (p : Pool) : List (Nat × PoolEntry) := p.entries.mapIdx fun i e => (i + 1, e)

end Pool

/-- How an index is written. -/
def indexText (i : Nat) : String := "#" ++ toString i

end StackExpr
