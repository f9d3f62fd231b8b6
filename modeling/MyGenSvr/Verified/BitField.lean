import Mathlib

/-!
# Fields of a machine word

A word put together from fields by shifting and OR-ing, and taken apart by
shifting and masking.  `shiftLeft_signExtend_or` reads the shift and the OR as an
append of the two parts, so that what a shift or a mask gives back is a fact about
appends.  Nothing but the low part has to fit: a low part wider than its place is
what breaks such a packing.

## Main results

* `shiftLeft_signExtend_or`: packing is appending.
* `sshiftRight_append`, `and_lowMask`: unpacking the high and the low part.
-/

namespace MyGenSvr.Verified.BitField

variable {m n w : Nat}

/-- A mask of the low `n` bits keeps the low field. -/
theorem and_lowMask (x : BitVec w) (n : Nat) :
    x &&& BitVec.ofNat w (2 ^ n - 1) = (x.setWidth n).setWidth w := by
  apply BitVec.eq_of_getLsbD_eq
  intro i hi
  rw [BitVec.getLsbD_and, BitVec.getLsbD_ofNat, Nat.testBit_two_pow_sub_one,
    BitVec.getLsbD_setWidth, BitVec.getLsbD_setWidth]
  simp [hi, Bool.and_comm]

/-- A word is its high part over its low part. -/
theorem extract_append_setWidth (x : BitVec (m + n)) :
    x.extractLsb' n m ++ x.setWidth n = x := by
  apply BitVec.eq_of_getLsbD_eq
  intro i hi
  rw [BitVec.getLsbD_append, BitVec.getLsbD_setWidth, BitVec.getLsbD_extractLsb']
  by_cases hin : i < n
  · simp [hin]
  · have hhi : i - n < m := by omega
    have hback : n + (i - n) = i := by omega
    simp [hin, hhi, hback]

/-- A high part shifted over a low part: the sign bits fall off the top. -/
theorem shiftLeft_signExtend_or (hi : BitVec m) (lo : BitVec n) :
    (hi.signExtend (m + n) <<< n) ||| lo.setWidth (m + n) = hi ++ lo := by
  apply BitVec.eq_of_getLsbD_eq
  intro i hlt
  rw [BitVec.getLsbD_or, BitVec.getLsbD_append, BitVec.getLsbD_shiftLeft,
    BitVec.getLsbD_setWidth, BitVec.getLsbD_signExtend]
  by_cases hin : i < n
  · have hwide : i < m + n := by omega
    simp [hin, hwide]
  · have hlo : lo.getLsbD i = false := BitVec.getLsbD_of_ge lo i (by omega)
    have hhi : i - n < m := by omega
    have hwide : i - n < m + n := by omega
    simp [hin, hlo, hlt, hhi, hwide]

/-- An arithmetic shift gives the high part back with its sign. -/
theorem sshiftRight_append (hm : 0 < m) (hi : BitVec m) (lo : BitVec n) :
    (hi ++ lo).sshiftRight n = hi.signExtend (m + n) := by
  apply BitVec.eq_of_getLsbD_eq
  intro i hlt
  rw [BitVec.getLsbD_sshiftRight, BitVec.getLsbD_signExtend, BitVec.getLsbD_append]
  have hin : ¬m + n ≤ i := by omega
  by_cases him : i < m
  · have hshift : n + i < m + n := by omega
    simp [him, hshift, hlt]
  · have hshift : ¬n + i < m + n := by omega
    simp [him, hshift, hin, hlt, BitVec.msb_append, hm.ne']

/-- An arithmetic shift and a cut give the field in the middle. -/
theorem setWidth_sshiftRight (x : BitVec w) (hw : n + m ≤ w) :
    (x.sshiftRight n).setWidth m = x.extractLsb' n m := by
  apply BitVec.eq_of_getLsbD_eq
  intro i hi
  rw [BitVec.getLsbD_setWidth, BitVec.getLsbD_sshiftRight, BitVec.getLsbD_extractLsb']
  have hin : ¬w ≤ i := by omega
  have hshift : n + i < w := by omega
  simp [hi, hin, hshift]

end MyGenSvr.Verified.BitField
