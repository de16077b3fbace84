/-!
# Words

Integers that fit in 64 bits.
-/

namespace Nodeflow

def word? (i : Int) : Option Int64 :=
  if Int64.minValue.toInt ≤ i ∧ i ≤ Int64.maxValue.toInt then some (Int64.ofInt i) else none

end Nodeflow
