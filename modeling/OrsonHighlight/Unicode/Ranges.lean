set_option autoImplicit false

namespace OrsonHighlight.Unicode

/-- Inclusive ranges of code points, ascending and disjoint. -/
abbrev Ranges := List (Nat × Nat)

/-- The search ends at the first range that starts past the code point. -/
def Ranges.holds : Ranges → Nat → Bool
  | [], _ => false
  | (low, high) :: rest, n => low ≤ n && (n ≤ high || Ranges.holds rest n)

end OrsonHighlight.Unicode
