/-! Stretches of source text, as offsets of their first and last characters. -/
namespace StackExpr

structure Span where
  start : Nat
  stop : Nat
  deriving DecidableEq, Inhabited

namespace Span

/-- The empty span at the start of the text, given to nodes with no place of their own. -/
def origin : Span := ⟨0, 0⟩

/-- The smallest span covering both. -/
def merge (a b : Span) : Span := ⟨min a.start b.start, max a.stop b.stop⟩

/-- A span whose end lies before its start has length zero. -/
def length (s : Span) : Nat := s.stop - s.start

def isEmpty (s : Span) : Bool := s.length == 0

/-- The cover of a list of spans; the origin if there are none. -/
def cover : List Span → Span
  | [] => origin
  | s :: rest => rest.foldl merge s

end Span
end StackExpr
