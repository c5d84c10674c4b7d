/-!
# Sets of characters given by ranges

The classes of characters that a text rule needs are tables of code point ranges. This module
holds the look-up; each class has a module of its own.
-/
namespace Retouch.Text

/-- A table of inclusive code point ranges. -/
abbrev Ranges := List (Nat × Nat)

namespace Ranges

/-- A code point belongs to the table when one of its ranges holds it. -/
def holds (table : Ranges) (code : Nat) : Bool :=
  table.any fun range => range.1 ≤ code && code ≤ range.2

theorem holds_iff (table : Ranges) (code : Nat) :
    table.holds code = true ↔ ∃ range ∈ table, range.1 ≤ code ∧ code ≤ range.2 := by
  simp [holds]

/-- The number of code points in a table whose ranges do not overlap. -/
def size (table : Ranges) : Nat :=
  table.foldl (fun count range => count + (range.2 + 1 - range.1)) 0

end Ranges

end Retouch.Text
