/-
# Tally -- sums of counts
-/

namespace Retarget

def total : List Nat → Nat
  | [] => 0
  | n :: ns => n + total ns

end Retarget
