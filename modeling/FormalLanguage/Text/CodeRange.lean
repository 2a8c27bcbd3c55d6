/-! Sets of characters given by ranges of code points. -/
namespace FormalLanguage.Text

/-- Ranges of code points, both ends included, the lower ranges first. -/
abbrev CodeRanges := List (Nat × Nat)

def CodeRanges.contains (c : Char) : CodeRanges → Bool
  | [] => false
  | (low, high) :: above =>
    if c.toNat < low then false else c.toNat ≤ high || CodeRanges.contains c above

end FormalLanguage.Text
