/-!
# Counts

A count is a number below `2 ^ 64`. Adding counts stops at the greatest one.
-/

namespace DatedCounts

abbrev Count := UInt64

namespace Count

def greatest : Nat := UInt64.size - 1

/-- The sum of two counts, or the greatest count when the sum is above it. -/
def plus (m n : Count) : Count := .ofNat (min greatest (m.toNat + n.toNat))

def sum (counts : List Count) : Count := counts.foldl plus 0

theorem toNat_plus (m n : Count) : (m.plus n).toNat = min greatest (m.toNat + n.toNat) := by
  rw [plus, UInt64.toNat_ofNat', Nat.mod_eq_of_lt]
  simp only [greatest, UInt64.size]
  omega

end Count

end DatedCounts
