import Mathlib.Algebra.Order.Field.Power
import Mathlib.Algebra.Order.Field.Rat
import Mathlib.Tactic.NormNum
import Mathlib.Tactic.Ring
import RowFilter.Literal.Basic

/-!
# The order of literals

Decimals are compared by the rational numbers that they denote, whatever their scales, and literals
by their types and then by value. Both comparisons are total preorders; literals that compare as
equal have the same type.
-/

set_option autoImplicit false

namespace RowFilter

namespace Decimal

/-- The number that a decimal denotes. -/
def value (d : Decimal) : ℚ :=
  d.unscaled * 10 ^ (-d.scale)

/-- Powers of ten are powers. -/
theorem tenTo_eq_pow (exponent : Nat) : tenTo exponent = 10 ^ exponent := rfl

/-- Brought to a scale that is not smaller than its own, a decimal is an integer. -/
theorem value_mul_pow {d : Decimal} {scale : Int} (h : d.scale ≤ scale) :
    d.value * 10 ^ scale = ((d.unscaled * tenTo (scale - d.scale).toNat : Int) : ℚ) := by
  have hnat : ((scale - d.scale).toNat : Int) = scale - d.scale := Int.toNat_of_nonneg (by omega)
  have hpow : (10 : ℚ) ^ (scale - d.scale).toNat = 10 ^ (scale - d.scale) := by
    rw [← zpow_natCast, hnat]
  rw [tenTo_eq_pow]
  push_cast
  rw [hpow, value, mul_assoc, ← zpow_add₀ (by norm_num)]
  congr 2
  ring

/-- Decimals are ordered by value. -/
theorem compare_eq_compare_value (a b : Decimal) : compare a b = compare a.value b.value := by
  have hpos : (0 : ℚ) < 10 ^ max a.scale b.scale := zpow_pos (by norm_num) _
  have hmono : StrictMono fun q : ℚ => q * 10 ^ max a.scale b.scale :=
    fun p q hpq => mul_lt_mul_of_pos_right hpq hpos
  have ha : (b.scale - a.scale).toNat = (max a.scale b.scale - a.scale).toNat := by omega
  have hb : (a.scale - b.scale).toNat = (max a.scale b.scale - b.scale).toNat := by omega
  calc
    compare a b = compare (a.unscaled * tenTo (max a.scale b.scale - a.scale).toNat)
        (b.unscaled * tenTo (max a.scale b.scale - b.scale).toNat) := by
      rw [← ha, ← hb]
      rfl
    _ = cmp ((a.unscaled * tenTo (max a.scale b.scale - a.scale).toNat : Int) : ℚ)
        ((b.unscaled * tenTo (max a.scale b.scale - b.scale).toNat : Int) : ℚ) := by
      rw [Int.cast_strictMono.cmp_map_eq, cmp_eq_compare]
    _ = cmp (a.value * 10 ^ max a.scale b.scale) (b.value * 10 ^ max a.scale b.scale) := by
      rw [value_mul_pow (le_max_left _ _), value_mul_pow (le_max_right _ _)]
    _ = compare a.value b.value := by
      rw [hmono.cmp_map_eq, cmp_eq_compare]

/-- The order of decimals is transitive, since it is the order of their values. -/
instance : Std.TransOrd Decimal where
  eq_swap {a b} := by
    rw [compare_eq_compare_value, compare_eq_compare_value b a]
    exact Std.OrientedOrd.eq_swap
  isLE_trans {a b c} hab hbc := by
    rw [compare_eq_compare_value] at hab hbc ⊢
    exact Std.TransOrd.isLE_trans hab hbc

end Decimal

namespace Literal

/-- Literals of different types are ordered as their types are. -/
theorem compare_of_type_ne {a b : Literal} (h : a.type ≠ b.type) :
    compare a b = compare a.type.rank b.type.rank := by
  cases a <;> cases b <;> first | rfl | exact absurd rfl h

/-- No two literal types have the same rank. -/
theorem rank_injective {s t : LiteralType} (h : s.rank = t.rank) : s = t := by
  cases s <;> cases t <;> first | rfl | contradiction

/-- A lower literal has no higher type. -/
theorem rank_le_of_isLE {a b : Literal} (h : (compare a b).isLE) : a.type.rank ≤ b.type.rank := by
  by_cases htype : a.type = b.type
  · rw [htype]
  · rw [compare_of_type_ne htype] at h
    exact Nat.isLE_compare.mp h

/-- Literals that the order does not tell apart have one type. -/
theorem type_eq_of_compare {a b : Literal} (h : compare a b = .eq) : a.type = b.type := by
  by_contra htype
  rw [compare_of_type_ne htype, Nat.compare_eq_eq] at h
  exact htype (rank_injective h)

/-- Comparing literals the other way round gives the opposite answer. -/
instance : Std.OrientedOrd Literal where
  eq_swap {a b} := by
    by_cases htype : a.type = b.type
    · cases a <;> cases b <;> try contradiction
      · exact Std.OrientedOrd.eq_swap (α := Bool)
      · exact Std.OrientedOrd.eq_swap (α := Int)
      · exact Std.OrientedOrd.eq_swap (α := Decimal)
      · exact Std.OrientedOrd.eq_swap (α := String)
    · rw [compare_of_type_ne htype, compare_of_type_ne (Ne.symm htype)]
      exact Std.OrientedOrd.eq_swap

/-- Between literals of one type stand only literals of that type. -/
theorem type_eq_of_isLE {a b c : Literal} (hab : (compare a b).isLE) (hbc : (compare b c).isLE)
    (hac : a.type = c.type) : b.type = a.type := by
  have hlower := rank_le_of_isLE hab
  have hupper := rank_le_of_isLE hbc
  rw [← hac] at hupper
  exact rank_injective (Nat.le_antisymm hupper hlower)

/-- The order of literals is transitive, within a type and across the types. -/
instance : Std.TransOrd Literal where
  isLE_trans {a b c} hab hbc := by
    by_cases hac : a.type = c.type
    · have hb := type_eq_of_isLE hab hbc hac
      cases a <;> cases c <;> try contradiction
      all_goals cases b <;> try contradiction
      · exact Std.TransOrd.isLE_trans (α := Bool) hab hbc
      · exact Std.TransOrd.isLE_trans (α := Int) hab hbc
      · exact Std.TransOrd.isLE_trans (α := Decimal) hab hbc
      · exact Std.TransOrd.isLE_trans (α := String) hab hbc
    · rw [compare_of_type_ne hac, Nat.isLE_compare]
      exact Nat.le_trans (rank_le_of_isLE hab) (rank_le_of_isLE hbc)

end Literal

end RowFilter
