/-!
# Exact decimals

A decimal is an integer and a scale: the number of places by which the point moves to the left. The
scale is kept as it was written, so `52.00` and `52` are different decimals of equal value. Order
and equality of value never round.
-/

set_option autoImplicit false

namespace RowFilter

/-- The number `unscaled · 10 ^ (-scale)`, together with the scale it was written with. -/
structure Decimal where
  unscaled : Int
  scale : Int
  deriving DecidableEq, Repr, Inhabited

namespace Decimal

/-- The power of ten with this exponent. -/
def tenTo (exponent : Nat) : Int :=
  Int.pow 10 exponent

/-- Decimals are ordered by value: both sides are brought to the larger of the two scales. -/
instance : Ord Decimal where
  compare a b :=
    compare (a.unscaled * tenTo (b.scale - a.scale).toNat)
      (b.unscaled * tenTo (a.scale - b.scale).toNat)

end Decimal

end RowFilter
