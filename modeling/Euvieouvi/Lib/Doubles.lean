import Mathlib.Data.Nat.Log
import Mathlib.Algebra.Group.Nat.Defs

/-!
# Double precision

What `float` and `int` make of each other's values, without arithmetic on floats: the magnitude of a
finite double is a whole number of units of `2 ^ -1074`, the least of them. A decimal text stands
for the double nearest to it, the even one of two, and for an infinity from `2 ^ 1024 - 2 ^ 970` on.
-/

namespace Euvieouvi

inductive Double
  | nan
  | infinite (negative : Bool)
  /-- `units * 2 ^ -1074`. -/
  | finite (negative : Bool) (units : Nat)
deriving DecidableEq, Repr

namespace Double

/-- The whole number nearest to `p / q`, the even one of two. -/
def nearest (p q : Nat) : Nat :=
  if 2 * (p % q) < q ∨ 2 * (p % q) = q ∧ p / q % 2 = 0 then p / q else p / q + 1

/-- The multiple of a power of two that is nearest to `p / q`: 53 bits of it are kept. -/
def nearestUnits (p q : Nat) : Nat :=
  let dropped := (p / q).log2 + 1 - 53
  nearest p (q * 2 ^ dropped) * 2 ^ dropped

/-- `float` of the decimal `digits * 10 ^ exponent`. -/
def ofDecimal (negative : Bool) (digits : Nat) (exponent : Int) : Double :=
  let units :=
    if 0 ≤ exponent then nearestUnits (digits * 10 ^ exponent.toNat * 2 ^ 1074) 1
    else nearestUnits (digits * 2 ^ 1074) (10 ^ (-exponent).toNat)
  if 2 ^ (1024 + 1074) ≤ units then .infinite negative else .finite negative units

/-- `int` of a finite double: the part behind the point is cut off. -/
def truncated (negative : Bool) (units : Nat) : Int :=
  if negative then -(units / 2 ^ 1074 : Nat) else (units / 2 ^ 1074 : Nat)

end Double

end Euvieouvi
