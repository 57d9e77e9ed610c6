/-! Sets of code points as ascending lists of closed ranges. The tables are those of Unicode 17.0. -/
namespace StackExpr.Text

abbrev Ranges := List (Nat × Nat)

/-- The search stops at the first range that reaches `n`. -/
def Ranges.contains : Ranges → Nat → Bool
  | [], _ => false
  | (low, high) :: rest, n => if n ≤ high then decide (low ≤ n) else Ranges.contains rest n

end StackExpr.Text
