import SamosaChat.Lib.FloatText

set_option autoImplicit false

namespace SamosaChat.FloatText

open Utf8 Binary64

-- Seventeen digits are enough for every double.

theorem nearest_unique {a c q : Nat} (below : 2 * a < 2 * (q * c) + c) (above : 2 * (q * c) < 2 * a + c) : nearest a c = q := by
  have some_ : 0 < c := by omega
  have split := Nat.div_add_mod a c
  have less := Nat.mod_lt a some_
  rcases Nat.lt_or_ge a (q * c) with under | over_
  · -- The quotient is one short, and what is left is more than half.
    have low : (q - 1) * c ≤ a := by
      rw [Nat.sub_mul]
      omega
    have whole : a / c = q - 1 := by
      rw [Nat.div_eq_iff some_]
      rw [Nat.sub_mul] at low ⊢
      omega
    have positive : 0 < q := by
      rcases Nat.eq_zero_or_pos q with rfl | positive
      · omega
      · exact positive
    have left : a % c = a - (q * c - c) := by
      rw [whole] at split
      have product : c * (q - 1) = q * c - c := by rw [Nat.mul_sub, Nat.mul_one, Nat.mul_comm]
      omega
    have wide : c ≤ q * c := Nat.le_mul_of_pos_left c positive
    unfold nearest
    rw [if_pos (by omega), whole]
    omega
  · have whole : a / c = q := by
      rw [Nat.div_eq_iff some_]
      omega
    have left : a % c = a - q * c := by
      rw [whole, Nat.mul_comm] at split
      omega
    unfold nearest
    rw [if_neg (by omega), whole]

-- The distance of a / b from the number, in shares of a / b, is less than what 53 bits can tell apart.
structure Near (a b units : Nat) : Prop where
  below : 2 ^ 54 * (units * b) < 2 ^ 54 * a + a
  above : 2 ^ 54 * a < 2 ^ 54 * (units * b) + a

theorem unit_divides {a b units : Nat} (some_ : 0 < b) (fits : Fits units) (near : Near a b units) :
    2 ^ ((a / b).log2 - 52) ∣ units := by
  by_cases fine : (a / b).log2 ≤ units.log2
  · exact (Nat.pow_dvd_pow 2 (by omega)).trans fits.2
  by_cases small : (a / b).log2 ≤ 52
  · rw [Nat.sub_eq_zero_of_le small]
    exact Nat.one_dvd _
  -- Below the power of two the doubles stand closer, but even the last of them is too far away.
  exfalso
  obtain ⟨k, power⟩ : ∃ k, (a / b).log2 = k + 53 := ⟨(a / b).log2 - 53, by omega⟩
  have nonzero : a / b ≠ 0 := by
    intro none_
    rw [none_] at small
    exact small (by decide)
  have low : 2 ^ (k + 53) * b ≤ a := by
    rw [← power]
    exact (Nat.le_div_iff_mul_le some_).mp (Nat.log2_self_le nonzero)
  have high : a < 2 ^ (k + 54) * b := by
    have next := @Nat.lt_log2_self (a / b)
    rw [power] at next
    exact (Nat.div_lt_iff_lt_mul some_).mp next
  have far : units + 2 ^ k ≤ 2 ^ (k + 53) := by
    have under : units < 2 ^ (units.log2 + 1) := Nat.lt_log2_self
    by_cases last : units.log2 = k + 52
    · obtain ⟨q, same⟩ := fits.2
      have unit : units.log2 - 52 = k := by omega
      rw [unit] at same
      have whole : (2 : Nat) ^ (k + 53) = 2 ^ k * 2 ^ 53 := Nat.pow_add 2 k 53
      have less : units < 2 ^ k * 2 ^ 53 := by
        rw [last] at under
        rwa [← whole]
      rw [same] at less
      have fewer : q < 2 ^ 53 := Nat.lt_of_mul_lt_mul_left less
      rw [whole, same]
      calc 2 ^ k * q + 2 ^ k = 2 ^ k * (q + 1) := by ring
        _ ≤ 2 ^ k * 2 ^ 53 := Nat.mul_le_mul_left _ fewer
    · have half : 2 ^ (units.log2 + 1) ≤ 2 ^ (k + 52) := Nat.pow_le_pow_right (by omega) (by omega)
      have most : 2 ^ k ≤ 2 ^ (k + 52) := Nat.pow_le_pow_right (by omega) (by omega)
      have double : (2 : Nat) ^ (k + 53) = 2 * 2 ^ (k + 52) := by ring
      omega
  have scaled : units * b + 2 ^ k * b ≤ 2 ^ (k + 53) * b := by
    rw [← Nat.add_mul]
    exact Nat.mul_le_mul_right b far
  have share : (2 : Nat) ^ (k + 54) * b = 2 ^ 54 * (2 ^ k * b) := by ring
  have above := near.above
  omega

theorem round_near {n d units : Nat} (some_ : 0 < d) (fits : Fits units) (near : Near (n * one) d units) :
    roundUnits n d = units := by
  have divides := unit_divides some_ fits near
  unfold roundUnits
  simp only
  generalize n * one = a at near divides ⊢
  obtain ⟨q, same⟩ := divides
  have high : a < 2 ^ ((a / d).log2 + 1) * d := (Nat.div_lt_iff_lt_mul some_).mp Nat.lt_log2_self
  have wide : 2 ^ ((a / d).log2 + 1) ≤ 2 ^ 53 * 2 ^ ((a / d).log2 - 52) := by
    rw [← Nat.pow_add]
    exact Nat.pow_le_pow_right (by omega) (by omega)
  generalize 2 ^ ((a / d).log2 - 52) = s at same wide ⊢
  have most : a < 2 ^ 53 * (d * s) := by
    calc a < 2 ^ ((a / d).log2 + 1) * d := high
      _ ≤ 2 ^ 53 * s * d := Nat.mul_le_mul_right d wide
      _ = 2 ^ 53 * (d * s) := by ring
  have product : units * d = q * (d * s) := by
    rw [same]
    ring
  have below := near.below
  have above := near.above
  rw [product] at below above
  rw [nearest_unique (q := q) (by omega) (by omega), same, Nat.mul_comm]

theorem nearest_error (a : Nat) {b : Nat} (some_ : 0 < b) :
    2 * a ≤ 2 * (nearest a b * b) + b ∧ 2 * (nearest a b * b) ≤ 2 * a + b := by
  have split := Nat.div_add_mod a b
  have less := Nat.mod_lt a some_
  have product : b * (a / b) = a / b * b := Nat.mul_comm _ _
  unfold nearest
  split_ifs with more
  · have next : (a / b + 1) * b = a / b * b + b := by ring
    omega
  · omega

theorem of_ratio_near {n d : Nat} {magnitude : Magnitude} (negative : Bool) (some_ : 0 < d)
    (near : Near (n * one) d magnitude.units) : ofRatio negative n d = .finite negative magnitude := by
  obtain ⟨units, fits⟩ := magnitude
  have round := round_near some_ fits near
  unfold ofRatio
  rw [dif_pos (by rw [round]; exact fits.1)]
  simp only [round]

theorem near_rounded {a b : Nat} (some_ : 0 < b) (many : 10 ^ 16 ≤ nearest a b) :
    2 ^ 54 * (nearest a b * b) < 2 ^ 54 * a + nearest a b * b ∧ 2 ^ 54 * a < 2 ^ 54 * (nearest a b * b) + nearest a b * b := by
  obtain ⟨below, above⟩ := nearest_error a some_
  have wide : 10 ^ 16 * b ≤ nearest a b * b := Nat.mul_le_mul_right b many
  omega

theorem scaled_rounds {magnitude : Magnitude} {x : Int} (many : 10 ^ 16 ≤ scaled magnitude.units x) :
    Rounds (scaled magnitude.units x) (x - 16) magnitude := by
  intro negative
  unfold ofScaled
  by_cases down : x ≤ 16
  · have power : (-(x - 16)).toNat = (16 - x).toNat := by omega
    have value : scaled magnitude.units x = nearest (magnitude.units * 10 ^ (16 - x).toNat) one := if_pos down
    rw [value] at many
    have close := near_rounded one_pos many
    have near : Near (scaled magnitude.units x * one) (10 ^ (16 - x).toNat) magnitude.units := by
      rw [value]
      exact ⟨close.2, close.1⟩
    by_cases zero_ : 0 ≤ x - 16
    · have none_ : (16 - x).toNat = 0 := by omega
      have none' : (x - 16).toNat = 0 := by omega
      rw [if_pos zero_, none', Nat.pow_zero, Nat.mul_one]
      rw [none_, Nat.pow_zero] at near
      exact of_ratio_near negative Nat.one_pos near
    · rw [if_neg zero_, power]
      exact of_ratio_near negative (by positivity) near
  · have value : scaled magnitude.units x = nearest magnitude.units (one * 10 ^ (x - 16).toNat) := if_neg down
    rw [value] at many
    have close := near_rounded (Nat.mul_pos one_pos (by positivity)) many
    have product : scaled magnitude.units x * 10 ^ (x - 16).toNat * one =
        nearest magnitude.units (one * 10 ^ (x - 16).toNat) * (one * 10 ^ (x - 16).toNat) := by
      rw [value]
      ring
    rw [if_pos (by omega)]
    apply of_ratio_near negative Nat.one_pos
    rw [product]
    exact ⟨by rw [Nat.mul_one]; exact close.2, by rw [Nat.mul_one]; exact close.1⟩

theorem seventeen_rounds {magnitude : Magnitude} (some_ : magnitude.units ≠ 0) :
    Rounds (seventeen magnitude.units).1 ((seventeen magnitude.units).2 - 16) magnitude := by
  have rounds := @scaled_rounds magnitude (leading magnitude.units) (scaled_bounds some_).1
  unfold seventeen carry
  by_cases top : scaled magnitude.units (leading magnitude.units) = 10 ^ 17
  · have shift : leading magnitude.units + 1 - 16 = leading magnitude.units - 16 + (1 : Nat) := by omega
    rw [if_pos top]
    simp only
    rw [shift, ← rounds_shift]
    rwa [top] at rounds
  · rw [if_neg top]
    exact rounds

-- Every double but the infinities and NaN is read back from its text.
theorem strtod_format {rest : Bytes} (negative : Bool) (magnitude : Magnitude) (stop : Stop rest) :
    strtod (format (.finite negative magnitude) ++ rest) = (.finite negative magnitude, rest) := by
  have read := strtod_reads negative (format_reads (@seventeen_rounds magnitude) stop)
  have text : format (.finite negative magnitude) ++ rest =
      if negative then 0x2d :: (formatMagnitude magnitude.units ++ rest) else formatMagnitude magnitude.units ++ rest := by
    cases negative with
    | true => simp only [format, if_true, List.cons_append]
    | false => simp only [format, Bool.false_eq_true, if_false]
  rw [text]
  exact read

end SamosaChat.FloatText
