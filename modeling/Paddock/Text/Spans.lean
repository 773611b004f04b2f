/-!
# Spans of code points

A class of characters is given by ascending spans of code points, each with its first and last
member.
-/

namespace Paddock

set_option autoImplicit false

abbrev Spans := List (Nat × Nat)

/-- Membership in ascending spans: the search ends at the first span beyond `n`. -/
def Spans.contains : Spans → Nat → Bool
  | [], _ => false
  | (first, last) :: rest, n => first ≤ n && (n ≤ last || contains rest n)

end Paddock
