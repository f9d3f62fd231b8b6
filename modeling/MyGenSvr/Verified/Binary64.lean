import Mathlib

/-!
# Whole numbers as doubles

The bit pattern of a whole number in the 64-bit binary format: a sign bit, eleven
bits of exponent biased by 1023, and 52 bits of fraction.  Below `2 ^ 53` in
magnitude a whole number has a pattern of its own, and arithmetic whose results are
such numbers is exact.  Above it the definitions here mean nothing.

## Main results

* `decode_encode` — a whole number below `2 ^ 53` is read off its pattern.
-/

namespace MyGenSvr.Verified.Binary64

/-- The pattern of a positive number: its leading one is implied. -/
def magnitude (m : Nat) : Nat :=
  if m = 0 then 0
  else (1023 + m.log2) * 2 ^ 52 + (m * 2 ^ (52 - m.log2) - 2 ^ 52)

/-- The number of a pattern without its sign bit. -/
def unmagnitude (b : Nat) : Nat :=
  if b = 0 then 0
  else (b % 2 ^ 52 + 2 ^ 52) / 2 ^ (52 - (b / 2 ^ 52 - 1023))

/-- The pattern of a whole number. -/
def encode (n : Int) : UInt64 :=
  .ofNat ((if n < 0 then 2 ^ 63 else 0) + magnitude n.natAbs)

/-- The whole number of a pattern. -/
def decode (u : UInt64) : Int :=
  let m : Int := unmagnitude (u.toNat % 2 ^ 63)
  if u.toNat < 2 ^ 63 then m else -m

section Magnitude

variable {m : Nat}

/-- The scaled number has its leading one at bit 52. -/
theorem scaled_bounds (hpos : 0 < m) (hlt : m < 2 ^ 53) :
    m.log2 ≤ 52 ∧ 2 ^ 52 ≤ m * 2 ^ (52 - m.log2) ∧ m * 2 ^ (52 - m.log2) < 2 ^ 53 := by
  have hne : m ≠ 0 := by omega
  have hlog : m.log2 < 53 := (Nat.log2_lt hne).mpr hlt
  have hlow : 2 ^ m.log2 ≤ m := Nat.log2_self_le hne
  have hhigh : m < 2 ^ (m.log2 + 1) := Nat.lt_log2_self
  have hexp : 2 ^ m.log2 * 2 ^ (52 - m.log2) = 2 ^ 52 := by
    rw [← Nat.pow_add]
    congr 1
    omega
  have hexp' : 2 ^ (m.log2 + 1) * 2 ^ (52 - m.log2) = 2 ^ 53 := by
    rw [← Nat.pow_add]
    congr 1
    omega
  refine ⟨by omega, ?_, ?_⟩
  · rw [← hexp]
    exact Nat.mul_le_mul_right _ hlow
  · rw [← hexp']
    exact Nat.mul_lt_mul_of_pos_right hhigh (Nat.two_pow_pos _)

theorem magnitude_lt (hlt : m < 2 ^ 53) : magnitude m < 2 ^ 63 := by
  rcases Nat.eq_zero_or_pos m with rfl | hpos
  · decide
  · obtain ⟨hlog, _, hhigh⟩ := scaled_bounds hpos hlt
    rw [magnitude, if_neg (by omega)]
    have hexp : (1023 + m.log2) * 2 ^ 52 ≤ 1075 * 2 ^ 52 :=
      Nat.mul_le_mul_right _ (by omega)
    omega

theorem unmagnitude_magnitude (hlt : m < 2 ^ 53) : unmagnitude (magnitude m) = m := by
  rcases Nat.eq_zero_or_pos m with rfl | hpos
  · rfl
  · obtain ⟨hlog, hlow, hhigh⟩ := scaled_bounds hpos hlt
    have hfraction : m * 2 ^ (52 - m.log2) - 2 ^ 52 < 2 ^ 52 := by omega
    have hdiv : magnitude m / 2 ^ 52 = 1023 + m.log2 := by
      rw [magnitude, if_neg (by omega), Nat.mul_comm, Nat.mul_add_div (by decide),
        Nat.div_eq_of_lt hfraction, Nat.add_zero]
    have hmod : magnitude m % 2 ^ 52 = m * 2 ^ (52 - m.log2) - 2 ^ 52 := by
      rw [magnitude, if_neg (by omega), Nat.mul_add_mod_self_right, Nat.mod_eq_of_lt hfraction]
    have hne : magnitude m ≠ 0 := by
      intro hzero
      rw [hzero] at hdiv
      omega
    rw [unmagnitude, if_neg hne, hdiv, hmod, Nat.sub_add_cancel hlow, Nat.add_sub_cancel_left]
    exact Nat.mul_div_cancel m (Nat.two_pow_pos _)

end Magnitude

/-- **Whole numbers below `2 ^ 53` are exact.** -/
theorem decode_encode {n : Int} (hn : n.natAbs < 2 ^ 53) : decode (encode n) = n := by
  have hmag := magnitude_lt hn
  have hback := unmagnitude_magnitude hn
  by_cases hneg : n < 0
  · have hpattern : (encode n).toNat = 2 ^ 63 + magnitude n.natAbs := by
      rw [encode, if_pos hneg, UInt64.toNat_ofNat', Nat.mod_eq_of_lt (by omega)]
    rw [decode, hpattern, if_neg (by omega), Nat.add_mod_left, Nat.mod_eq_of_lt hmag, hback]
    omega
  · have hpattern : (encode n).toNat = magnitude n.natAbs := by
      rw [encode, if_neg hneg, Nat.zero_add, UInt64.toNat_ofNat', Nat.mod_eq_of_lt (by omega)]
    rw [decode, hpattern, if_pos hmag, Nat.mod_eq_of_lt hmag, hback]
    omega

/-- `1000.0` has the exponent of 512. -/
example : encode 1000 = 0x408F400000000000 := by decide +kernel

end MyGenSvr.Verified.Binary64
