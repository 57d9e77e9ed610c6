import StackExpr.Machine.Value

/-! The store: containers and iterators that values refer to.

Addresses are handed out in order and never taken back. An address that was never handed out reads
as an empty container. -/
namespace StackExpr

/-- An iterator over the entries a map had when it was made. -/
structure Cursor where
  entries : MapEntries
  position : Nat

namespace Cursor

def hasNext (c : Cursor) : Bool := c.position < c.entries.length

def next? (c : Cursor) : Option ((MapKey × Value) × Cursor) :=
  c.entries[c.position]?.map fun e => (e, { c with position := c.position + 1 })

end Cursor

structure Store where
  maps : List MapEntries
  lists : List (List Value)
  cursors : List Cursor

/-- The value kept under a key. -/
def MapEntries.get? (es : MapEntries) (key : MapKey) : Option Value :=
  (es.find? (·.1 == key)).map (·.2)

/-- A new key goes last; a known key keeps its place and takes the new value. -/
def MapEntries.put (key : MapKey) (value : Value) : MapEntries → MapEntries
  | [] => [(key, value)]
  | (k, v) :: rest =>
    if k == key then (k, value) :: rest else (k, v) :: MapEntries.put key value rest

namespace Store

def empty : Store := ⟨[], [], []⟩

def entries (s : Store) (a : Address) : MapEntries := s.maps[a]?.getD []

def items (s : Store) (a : Address) : List Value := s.lists[a]?.getD []

def cursor (s : Store) (a : Address) : Cursor := s.cursors[a]?.getD ⟨[], 0⟩

def newMap (s : Store) (es : MapEntries) : Address × Store :=
  (s.maps.length, { s with maps := s.maps ++ [es] })

def newList (s : Store) (xs : List Value) : Address × Store :=
  (s.lists.length, { s with lists := s.lists ++ [xs] })

def newCursor (s : Store) (c : Cursor) : Address × Store :=
  (s.cursors.length, { s with cursors := s.cursors ++ [c] })

def put (s : Store) (a : Address) (key : MapKey) (value : Value) : Store :=
  { s with maps := s.maps.set a ((s.entries a).put key value) }

def append (s : Store) (a : Address) (value : Value) : Store :=
  { s with lists := s.lists.set a (s.items a ++ [value]) }

def setCursor (s : Store) (a : Address) (c : Cursor) : Store :=
  { s with cursors := s.cursors.set a c }

end Store

mutual

/-- How deep a value nests by itself, without the containers it refers to. -/
def Value.height : Value → Nat
  | .entry _ value => value.height + 1
  | .entrySet entries => Value.entriesHeight entries + 1
  | _ => 0

def Value.entriesHeight : List (MapKey × Value) → Nat
  | [] => 0
  | (_, v) :: rest => v.height + Value.entriesHeight rest

end

namespace Store

/-- Each container counts once, with what is nested in it. -/
def weight (s : Store) : Nat :=
  s.maps.foldr (fun es n => Value.entriesHeight es + 1 + n) 0 +
    s.lists.foldr (fun xs n => xs.foldr (fun v k => v.height + k) 0 + 1 + n) 0 +
    s.cursors.foldr (fun c n => Value.entriesHeight c.entries + 1 + n) 0

/-- No path from a value is longer than this, unless a container contains itself. -/
def depth (s : Store) (v : Value) : Nat := s.weight + v.height + 1

/-- Value equality of references, to a given depth. One container equals itself; two are equal if
their contents are, and of maps the order does not count. Sets and iterators equal nothing, and
neither do floating-point numbers that are not in a wrapper. -/
def equalTo (s : Store) : (depth : Nat) → Value → Value → Bool
  | 0, _, _ => false
  | _, .null, .null => true
  | _, .boxed a, .boxed b => a == b
  | _, .string a, .string b => a == b
  | _, .int a, .int b => a == b
  | _, .long a, .long b => a == b
  | n + 1, .map a, .map b =>
    a == b || ((s.entries a).length == (s.entries b).length &&
      (s.entries a).all fun (k, v) =>
        match (s.entries b).get? k with
        | some w => s.equalTo n v w
        | none => false)
  | n + 1, .list a, .list b =>
    a == b || ((s.items a).length == (s.items b).length &&
      ((s.items a).zip (s.items b)).all fun (v, w) => s.equalTo n v w)
  | n + 1, .entry j v, .entry k w => j == k && s.equalTo n v w
  | _, _, _ => false

def equal (s : Store) (a b : Value) : Bool := s.equalTo (s.depth a) a b

end Store
end StackExpr
