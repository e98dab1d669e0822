/-
  This file defines the form of the character tables: a
  property is a list of ranges of code points, and a character
  has the property when one of the ranges holds its code point.

  Key definitions include:
    * `CodeRange`
    * `CodeRange.Holds`
    * `inRanges`
-/

namespace ElixirReader.Unicode

------------------------------------------------------------
-- Ranges of code points
------------------------------------------------------------

/- The first and the last code point of a range. -/
abbrev CodeRange :=
  Nat × Nat

namespace CodeRange

/- A range holds its two ends and all that lies between. -/
def Holds
    (r : CodeRange)
    (n : Nat) : Prop :=
  r.1 ≤ n ∧ n ≤ r.2

instance
    (r : CodeRange)
    (n : Nat) : Decidable (r.Holds n) :=
  inferInstanceAs (Decidable (r.1 ≤ n ∧ n ≤ r.2))

end CodeRange

/- Membership of a code point in one of a list of ranges. -/
def inRanges
    (ranges : List CodeRange)
    (n : Nat) : Bool :=
  ranges.any (fun r => decide (r.Holds n))

theorem inRanges_iff
    {ranges : List CodeRange}
    {n : Nat} :
    inRanges ranges n = true ↔
      ∃ r ∈ ranges, CodeRange.Holds r n := by
  simp [inRanges]

end ElixirReader.Unicode
