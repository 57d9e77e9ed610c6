import StackExpr.Machine.Store
import StackExpr.Text.Quoted

/-! Values with their contents: what a reference leads to, as a tree. -/
namespace StackExpr

inductive Datum where
  | int (value : Int32)
  | long (value : Int64)
  | float (value : Float32)
  | double (value : Float)
  | null
  | boxed (w : Wrapper)
  | string (value : String)
  | map (entries : List (MapKey × Datum))
  | list (items : List Datum)
  | entrySet (entries : List (MapKey × Datum))
  | iterator (entries : List (MapKey × Datum)) (position : Nat)
  | entry (key : MapKey) (value : Datum)

namespace Store

/-- Follows references to a given depth. -/
def readTo (s : Store) : (depth : Nat) → Value → Datum
  | 0, _ => .null
  | _, .int v => .int v
  | _, .long v => .long v
  | _, .float v => .float v
  | _, .double v => .double v
  | _, .null => .null
  | _, .boxed w => .boxed w
  | _, .string v => .string v
  | n + 1, .map a => .map ((s.entries a).map fun (k, v) => (k, s.readTo n v))
  | n + 1, .list a => .list ((s.items a).map (s.readTo n))
  | n + 1, .entrySet es => .entrySet (es.map fun (k, v) => (k, s.readTo n v))
  | n + 1, .iterator a =>
    .iterator ((s.cursor a).entries.map fun (k, v) => (k, s.readTo n v)) (s.cursor a).position
  | n + 1, .entry k v => .entry k (s.readTo n v)

def read (s : Store) (v : Value) : Datum := s.readTo (s.depth v) v

end Store

mutual

/-- Builds a tree in the store, every container afresh. -/
def Datum.place (s : Store) : Datum → Value × Store
  | .int v => (.int v, s)
  | .long v => (.long v, s)
  | .float v => (.float v, s)
  | .double v => (.double v, s)
  | .null => (.null, s)
  | .boxed w => (.boxed w, s)
  | .string v => (.string v, s)
  | .map es =>
    let (es, s) := Datum.placeEntries s es
    let (a, s) := s.newMap (es.foldl (fun m (k, v) => m.put k v) [])
    (.map a, s)
  | .list xs =>
    let (xs, s) := Datum.placeItems s xs
    let (a, s) := s.newList xs
    (.list a, s)
  | .entrySet es =>
    let (es, s) := Datum.placeEntries s es
    (.entrySet es, s)
  | .iterator es position =>
    let (es, s) := Datum.placeEntries s es
    let (a, s) := s.newCursor ⟨es, position⟩
    (.iterator a, s)
  | .entry k v =>
    let (v, s) := v.place s
    (.entry k v, s)

def Datum.placeItems (s : Store) : List Datum → List Value × Store
  | [] => ([], s)
  | d :: rest =>
    let (v, s) := d.place s
    let (vs, s) := Datum.placeItems s rest
    (v :: vs, s)

def Datum.placeEntries (s : Store) : List (MapKey × Datum) → MapEntries × Store
  | [] => ([], s)
  | (k, d) :: rest =>
    let (v, s) := d.place s
    let (es, s) := Datum.placeEntries s rest
    ((k, v) :: es, s)

end

mutual

/-- The string form of a value. -/
def Datum.text : Datum → String
  | .int v => toString v.toInt
  | .long v => toString v.toInt
  | .float v => Number.printedSingle v
  | .double v => Number.printedDouble v
  | .null => "null"
  | .boxed w => w.text
  | .string v => v
  | .map es => "\x7b" ++ ", ".intercalate (Datum.entryTexts es) ++ "\x7d"
  | .list xs => "[" ++ ", ".intercalate (Datum.texts xs) ++ "]"
  | .entrySet es => "[" ++ ", ".intercalate (Datum.entryTexts es) ++ "]"
  | .iterator _ _ => "Iterator"
  | .entry k v => k.text ++ "=" ++ v.text

def Datum.texts : List Datum → List String
  | [] => []
  | d :: rest => d.text :: Datum.texts rest

def Datum.entryTexts : List (MapKey × Datum) → List String
  | [] => []
  | (k, d) :: rest => (k.text ++ "=" ++ d.text) :: Datum.entryTexts rest

end

/-- The form in which a result is shown: a string in quotes. -/
def Datum.shown : Datum → String
  | .string v => Text.quoted v
  | d => d.text

def Datum.lookup (key : MapKey) (es : List (MapKey × Datum)) : Option Datum :=
  (es.find? (·.1 == key)).map (·.2)

mutual

/-- Sameness in every part: numbers by value, so that NaN differs from itself, wrappers by their
bits, maps without regard to order, and iterators with their positions. -/
def Datum.same : Datum → Datum → Bool
  | .int a, .int b => a == b
  | .long a, .long b => a == b
  | .float a, .float b => a == b
  | .double a, .double b => a == b
  | .null, .null => true
  | .boxed a, .boxed b => a == b
  | .string a, .string b => a == b
  | .map a, .map b => a.length == b.length && Datum.sameIn b a
  | .list a, .list b => Datum.sameItems a b
  | .entrySet a, .entrySet b => Datum.sameEntries a b
  | .iterator a i, .iterator b j => i == j && Datum.sameEntries a b
  | .entry j a, .entry k b => j == k && a.same b
  | _, _ => false

/-- Every entry has a counterpart under its key. -/
def Datum.sameIn (other : List (MapKey × Datum)) : List (MapKey × Datum) → Bool
  | [] => true
  | (k, d) :: rest =>
    (match Datum.lookup k other with
      | some e => d.same e
      | none => false) && Datum.sameIn other rest

def Datum.sameItems : List Datum → List Datum → Bool
  | [], [] => true
  | a :: as, b :: bs => a.same b && Datum.sameItems as bs
  | _, _ => false

def Datum.sameEntries : List (MapKey × Datum) → List (MapKey × Datum) → Bool
  | [], [] => true
  | (j, a) :: as, (k, b) :: bs => j == k && a.same b && Datum.sameEntries as bs
  | _, _ => false

end

end StackExpr
