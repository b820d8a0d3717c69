import Mathlib.Data.UInt

set_option autoImplicit false

namespace SamosaChat.Words

theorem u64_sub (a b : UInt64) (enough : b.toNat ≤ a.toNat) : (a - b).toNat = a.toNat - b.toNat :=
  UInt64.toNat_sub_of_le a b (UInt64.le_iff_toNat_le.mpr enough)

theorem u64_add (a b : UInt64) (room : a.toNat + b.toNat < 2 ^ 64) : (a + b).toNat = a.toNat + b.toNat := by
  rw [UInt64.toNat_add, Nat.mod_eq_of_lt room]

theorem u32_sub (a b : UInt32) (enough : b.toNat ≤ a.toNat) : (a - b).toNat = a.toNat - b.toNat :=
  UInt32.toNat_sub_of_le a b (UInt32.le_iff_toNat_le.mpr enough)

theorem u32_add (a b : UInt32) (room : a.toNat + b.toNat < 2 ^ 32) : (a + b).toNat = a.toNat + b.toNat := by
  rw [UInt32.toNat_add, Nat.mod_eq_of_lt room]

theorem u64_ne_zero (a : UInt64) : a ≠ 0 ↔ 0 < a.toNat := by
  rw [Ne, ← UInt64.toNat_inj, UInt64.toNat_zero]
  omega

theorem u32_ne_zero (a : UInt32) : a ≠ 0 ↔ 0 < a.toNat := by
  rw [Ne, ← UInt32.toNat_inj, UInt32.toNat_zero]
  omega

theorem u64_not_lt (a b : UInt64) : decide (a < b) = false ↔ b.toNat ≤ a.toNat := by
  rw [decide_eq_false_iff_not, UInt64.lt_iff_toNat_lt]
  omega

theorem u32_not_lt (a b : UInt32) : decide (a < b) = false ↔ b.toNat ≤ a.toNat := by
  rw [decide_eq_false_iff_not, UInt32.lt_iff_toNat_lt]
  omega

end SamosaChat.Words
