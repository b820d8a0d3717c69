import Mathlib.Data.Nat.Log
import Mathlib.Data.Rat.Cast.Order
import Mathlib.Algebra.Order.Field.Power
import Mathlib.Tactic.FieldSimp
import Mathlib.Tactic.Positivity
import Mathlib.Tactic.Ring

set_option autoImplicit false

namespace SamosaChat.Binary64

-- Finite magnitudes count units of 2^-1074, of which at most 53 bits are in use.
def Fits (units : Nat) : Prop :=
  units < 2 ^ 2098 ∧ 2 ^ (units.log2 - 52) ∣ units

instance (units : Nat) : Decidable (Fits units) := by
  unfold Fits
  infer_instance

structure Magnitude where
  units : Nat
  fits : Fits units
deriving DecidableEq

inductive Double
  | nan
  | inf (negative : Bool)
  | finite (negative : Bool) (magnitude : Magnitude)
deriving DecidableEq

def one : Nat := 2 ^ 1074

def Magnitude.zero : Magnitude :=
  ⟨0, by decide +kernel⟩

def zero : Double :=
  .finite false .zero

theorem scaled_dvd {q t : Nat} (small : q ≤ 2 ^ 53) : 2 ^ ((q * 2 ^ t).log2 - 52) ∣ q * 2 ^ t := by
  by_cases none_ : q = 0
  · subst none_
    simp
  have some_ : q * 2 ^ t ≠ 0 := Nat.mul_ne_zero none_ (by positivity)
  rcases Nat.lt_or_eq_of_le small with less | same
  · have bound : (q * 2 ^ t).log2 < 53 + t := by
      rw [Nat.log2_lt some_, Nat.pow_add]
      exact Nat.mul_lt_mul_of_pos_right less (by positivity)
    exact Dvd.dvd.mul_left (Nat.pow_dvd_pow 2 (by omega)) q
  · rw [same, ← Nat.pow_add, Nat.log2_two_pow]
    exact Nat.pow_dvd_pow 2 (by omega)

variable {a b mantissa n : Nat} {exponent : Int} {magnitude : Magnitude}

theorem integer_fits (small : n ≤ 2 ^ 53) : Fits (n * one) := by
  refine ⟨?_, scaled_dvd small⟩
  calc n * one ≤ 2 ^ 53 * one := Nat.mul_le_mul_right one small
    _ < 2 ^ 2098 := by
      rw [one, ← Nat.pow_add]
      exact Nat.pow_lt_pow_right (by omega) (by omega)

theorem zero_small : 0 ≤ 2 ^ 53 := Nat.zero_le _

def integer (negative : Bool) (n : Nat) (small : n ≤ 2 ^ 53) : Double :=
  .finite negative ⟨n * one, integer_fits small⟩

def natural : Double → Option Nat
  | .finite negative magnitude =>
    if magnitude.units % one = 0 ∧ (negative = false ∨ magnitude.units = 0) then some (magnitude.units / one) else none
  | _ => none

def sameNumber : Double → Double → Bool
  | .finite negative magnitude, .finite negative' magnitude' =>
    magnitude = magnitude' && (negative == negative' || magnitude.units == 0)
  | .inf negative, .inf negative' => negative == negative'
  | _, _ => false

def nearest (a b : Nat) : Nat :=
  if 2 * (a % b) > b ∨ 2 * (a % b) = b ∧ a / b % 2 = 1 then a / b + 1 else a / b

def roundUnits (n d : Nat) : Nat :=
  let shift := 2 ^ ((n * one / d).log2 - 52)
  nearest (n * one) (d * shift) * shift

theorem nearest_le : nearest a b ≤ a / b + 1 := by
  unfold nearest
  split <;> omega

theorem nearest_exact (some_ : 0 < b) (exact_ : b ∣ a) : nearest a b = a / b := by
  have left : a % b = 0 := Nat.mod_eq_zero_of_dvd exact_
  unfold nearest
  rw [if_neg (by omega)]

theorem quotient_small (x : Nat) : x / 2 ^ (x.log2 - 52) < 2 ^ 53 := by
  rw [Nat.div_lt_iff_lt_mul (by positivity), ← Nat.pow_add]
  calc x < 2 ^ (x.log2 + 1) := Nat.lt_log2_self
    _ ≤ 2 ^ (53 + (x.log2 - 52)) := Nat.pow_le_pow_right (by omega) (by omega)

theorem round_units_dvd (n d : Nat) : 2 ^ ((roundUnits n d).log2 - 52) ∣ roundUnits n d := by
  refine scaled_dvd (Nat.le_trans nearest_le ?_)
  rw [← Nat.div_div_eq_div_mul]
  exact quotient_small (n * one / d)

def ofRatio (negative : Bool) (n d : Nat) : Double :=
  if small : roundUnits n d < 2 ^ 2098 then .finite negative ⟨roundUnits n d, small, round_units_dvd n d⟩
  else .inf negative

theorem of_ratio_exact {d : Nat} (negative : Bool) (some_ : 0 < d)
    (same : n * one = magnitude.units * d) : ofRatio negative n d = .finite negative magnitude := by
  obtain ⟨units, small, fits⟩ := magnitude
  have round : roundUnits n d = units := by
    unfold roundUnits
    simp only
    dsimp only at same
    rw [same, Nat.mul_div_cancel units some_]
    have unit : 0 < 2 ^ (units.log2 - 52) := by positivity
    have exact_ : d * 2 ^ (units.log2 - 52) ∣ units * d := by
      rw [Nat.mul_comm units d]
      exact Nat.mul_dvd_mul_left d fits
    rw [nearest_exact (Nat.mul_pos some_ unit) exact_, Nat.mul_comm units d, Nat.mul_div_mul_left _ _ some_,
      Nat.div_mul_cancel fits]
  unfold ofRatio
  rw [dif_pos (by rw [round]; exact small)]
  simp only [round]

def ofScaled (negative : Bool) (base mantissa : Nat) (exponent : Int) : Double :=
  if 0 ≤ exponent then ofRatio negative (mantissa * base ^ exponent.toNat) 1
  else ofRatio negative mantissa (base ^ (-exponent).toNat)

-- mantissa * 10 ^ exponent is the magnitude.
def Denotes (mantissa : Nat) (exponent : Int) (units : Nat) : Prop :=
  (mantissa : ℚ) * 10 ^ exponent * one = units

theorem denotes_shift {units : Nat} (k : Nat) :
    Denotes (mantissa * 10 ^ k) exponent units ↔ Denotes mantissa (exponent + k) units := by
  unfold Denotes
  rw [zpow_add₀ (by norm_num), zpow_natCast]
  push_cast
  rw [mul_assoc (mantissa : ℚ) (10 ^ k), mul_comm ((10 : ℚ) ^ k)]

theorem of_scaled_denotes (negative : Bool) (denotes : Denotes mantissa exponent magnitude.units) :
    ofScaled negative 10 mantissa exponent = .finite negative magnitude := by
  unfold Denotes at denotes
  unfold ofScaled
  by_cases up : 0 ≤ exponent
  · rw [if_pos up]
    refine of_ratio_exact negative (by omega) ?_
    obtain ⟨k, rfl⟩ := Int.eq_ofNat_of_zero_le up
    rw [Int.toNat_natCast, Nat.mul_one]
    rw [zpow_natCast] at denotes
    exact_mod_cast denotes
  · rw [if_neg up]
    refine of_ratio_exact negative (by positivity) ?_
    obtain ⟨k, same⟩ := Int.eq_ofNat_of_zero_le (a := -exponent) (by omega)
    have back : exponent = -(k : Int) := by omega
    subst back
    rw [neg_neg, Int.toNat_natCast]
    rw [zpow_neg, zpow_natCast] at denotes
    have cleared : (mantissa : ℚ) * one = magnitude.units * 10 ^ k := by
      have some_ : (10 : ℚ) ^ k ≠ 0 := by positivity
      rw [← denotes, mul_right_comm (_ * _) _ ((10 : ℚ) ^ k), mul_assoc (mantissa : ℚ), inv_mul_cancel₀ some_, mul_one]
    exact_mod_cast cleared

def Rounds (mantissa : Nat) (exponent : Int) (magnitude : Magnitude) : Prop :=
  ∀ negative, ofScaled negative 10 mantissa exponent = .finite negative magnitude

theorem denotes_rounds (denotes : Denotes mantissa exponent magnitude.units) : Rounds mantissa exponent magnitude :=
  fun negative => of_scaled_denotes negative denotes

theorem nearest_scale {c : Nat} (some_ : 0 < c) : nearest (a * c) (b * c) = nearest a b := by
  have left : a * c % (b * c) = a % b * c := Nat.mul_mod_mul_right c a b
  have whole : a * c / (b * c) = a / b := Nat.mul_div_mul_right a b some_
  have more : 2 * (a % b * c) > b * c ↔ 2 * (a % b) > b := by
    rw [← mul_assoc]
    exact Nat.mul_lt_mul_right some_
  have same : 2 * (a % b * c) = b * c ↔ 2 * (a % b) = b := by
    rw [← mul_assoc]
    exact Nat.mul_left_inj some_.ne'
  unfold nearest
  simp only [left, whole, more, same]

theorem of_ratio_scale {d c : Nat} (negative : Bool) (some_ : 0 < c) : ofRatio negative (n * c) (d * c) = ofRatio negative n d := by
  have round : roundUnits (n * c) (d * c) = roundUnits n d := by
    unfold roundUnits
    simp only
    rw [Nat.mul_right_comm n c one, Nat.mul_div_mul_right _ _ some_, Nat.mul_right_comm d c, nearest_scale some_]
  unfold ofRatio
  simp only [round]

theorem of_scaled_shift (negative : Bool) (k : Nat) :
    ofScaled negative 10 (mantissa * 10 ^ k) exponent = ofScaled negative 10 mantissa (exponent + k) := by
  unfold ofScaled
  by_cases up : 0 ≤ exponent
  · have power : (exponent + k).toNat = k + exponent.toNat := by omega
    rw [if_pos up, if_pos (by omega), power, Nat.pow_add, mul_assoc]
  · rw [if_neg up]
    by_cases over_ : 0 ≤ exponent + k
    · have power : k = (exponent + k).toNat + (-exponent).toNat := by omega
      have same : mantissa * 10 ^ k = mantissa * 10 ^ (exponent + k).toNat * 10 ^ (-exponent).toNat := by
        rw [mul_assoc, ← Nat.pow_add, ← power]
      have scaled := @of_ratio_scale (mantissa * 10 ^ (exponent + k).toNat) 1 (10 ^ (-exponent).toNat) negative
        (by positivity)
      rw [if_pos over_, same, ← scaled, Nat.one_mul]
    · have power : (-exponent).toNat = (-(exponent + k)).toNat + k := by omega
      rw [if_neg over_, power, Nat.pow_add]
      exact of_ratio_scale negative (by positivity)

theorem rounds_shift (k : Nat) : Rounds (mantissa * 10 ^ k) exponent magnitude ↔ Rounds mantissa (exponent + k) magnitude := by
  unfold Rounds
  simp only [of_scaled_shift]

end SamosaChat.Binary64
