/-!
# First occurrences

`distinct` keeps the first of every group of equal items and the order of those that stay.
-/

namespace Rigging

variable {α : Type} [BEq α]

/-- The items without later repetitions. -/
def distinct : List α → List α
  | [] => []
  | x :: xs => x :: (distinct xs).filter fun y => !(y == x)

end Rigging
