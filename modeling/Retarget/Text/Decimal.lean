/-
# Text.Decimal -- decimals as binary fractions of 53 bits

A decimal number stands for the nearest binary fraction whose mantissa has 53 bits, a tie going
to the even mantissa. Only the whole part of that fraction is needed here, and whether the
number is too large to have one.
-/

namespace Retarget.Text

/-- The quotient rounded to the nearest whole number, a tie to the even one. -/
def roundDiv (n d : Nat) : Nat :=
  let q := n / d
  let r := n % d
  if 2 * r < d || (2 * r == d && q % 2 == 0) then q else q + 1

/-- The whole part of the fraction nearest to `n / d`. -/
def nearestWhole (n d : Nat) : Nat :=
  let q := n / d
  let bits := if q == 0 then 0 else q.log2 + 1
  if 53 < bits then
    let unit := Nat.pow 2 (bits - 53)
    roundDiv n (d * unit) * unit
  else
    let unit := Nat.pow 2 (53 - bits)
    roundDiv (n * unit) d / unit

/-- The whole part of the fraction nearest to `digits · 10^power`; nothing when it would need
more than 1024 bits. -/
def scaledWhole? (digits : Nat) (power : Int) : Option Nat :=
  let size : Int := (Nat.toDigits 10 digits).length + power
  if digits == 0 || size < 0 then some 0
  else if 310 < size then none
  else
    let whole := if 0 ≤ power then nearestWhole (digits * Nat.pow 10 power.toNat) 1
      else nearestWhole digits (Nat.pow 10 (-power).toNat)
    if whole < Nat.pow 2 1024 then some whole else none

end Retarget.Text
