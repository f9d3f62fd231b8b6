import MyGenSvr.Ports.HostIndependence

/-!
# The target of a failed extraction

The 16- and 32-bit operators apply `ntohs`/`ntohl` to their target without
looking at what `Read` returned, so a target that nothing was read into is
converted all the same.  The string operator assigns its target before it moves
the cursor over the terminator, and clears it without setting the error code
when the length it measures is not positive.

## Main results

* `getScalar_spared_iff`, `getString_spared_iff` — when a target is left alone.
* `failed_extraction_spares_iff` — both.
-/

namespace MyGenSvr.Ports

open MyGenSvr.Verified.ByteOrder
open MyGenSvr.Verified.Buffer

/-- If the error code is not 0 afterwards, the target has its old value and the
cursor has not moved. -/
def Spared {α : Type} (s : Serializer) (value : α) (result : Serializer × α) : Prop :=
  result.1.iError ≠ 0 → result.2 = value ∧ result.1.pBuffer.pRead = s.pBuffer.pRead

instance {α : Type} [DecidableEq α] (s : Serializer) (value : α)
    (result : Serializer × α) : Decidable (Spared s value result) := by
  unfold Spared
  infer_instance

section Targets

variable {s : Serializer}

/-- An extraction that ends with error code 0 has nothing to spare. -/
theorem spared_of_ok {α : Type} {value : α} {result : Serializer × α}
    (hok : result.1.iError = 0) : Spared s value result := fun hne => absurd hok hne

/-! ## Scalars -/

theorem isInteger_of_converted {k : Scalar} (hk : k.converted = true) :
    k.isInteger = true := by
  cases k <;> first | rfl | exact absurd hk (by decide)

/-- What a failed extraction leaves is the old value exactly if the conversion
of the mode does nothing to it. -/
theorem afterFailure_eq_iff (h : Host) (c : Bool) {k : Scalar} (hk : k ≠ .bool)
    (value : k.Val) :
    k.afterFailure h c value = value ↔ k.convert h c (k.bits value) = k.bits value := by
  by_cases hconv : k.converted = true
  · have hafter : k.afterFailure h c value = k.ofBits (k.convert h c (k.bits value)) := by
      cases k <;> first | rfl | exact absurd hconv (by decide)
    rw [hafter]
    constructor
    · intro heq
      have hbits := Scalar.bits_ofBits (isInteger_of_converted hconv)
        (convert_lt h c k (k.bits_lt value))
      rw [heq] at hbits
      exact hbits.symm
    · intro heq
      rw [heq, Scalar.ofBits_bits]
  · have hafter : k.afterFailure h c value = value := by
      cases k <;> first | rfl | exact absurd rfl hk | exact absurd rfl hconv
    have hsame : k.convert h c (k.bits value) = k.bits value := by
      rw [Scalar.convert, Bool.eq_false_of_not_eq_true hconv, Bool.and_false]
      exact if_neg Bool.false_ne_true
    exact iff_of_true hafter hsame

/-- **A scalar target** is left alone exactly if there are enough bytes or the
conversion does nothing to it. -/
theorem getScalar_spared_iff (h : Host) {k : Scalar} (hk : k ≠ .bool) (value : k.Val) :
    Spared s value (s.getScalar h k value) ↔
      s.pBuffer.pRead + k.width ≤ s.pBuffer.pWrite ∨
        k.convert h s.changeByteOrder (k.bits value) = k.bits value := by
  by_cases hlen : s.pBuffer.pRead + k.width ≤ s.pBuffer.pWrite
  · have hread : (s.getScalar h k value).1.iError = 0 := by
      rw [Serializer.getScalar, DataBuffer.read, width_toNat, if_neg (by omega), ok_iError]
    exact iff_of_true (spared_of_ok hread) (Or.inl hlen)
  · have hget : s.getScalar h k value =
        (s.setError (-1), k.afterFailure h s.changeByteOrder value) := by
      rw [Serializer.getScalar, DataBuffer.read, width_toNat, if_pos (by omega)]
    rw [hget, or_iff_right hlen, ← afterFailure_eq_iff h _ hk]
    constructor
    · intro hspared
      exact (hspared (by rw [setError_iError]; decide)).1
    · intro hafter _
      exact ⟨hafter, rfl⟩

/-! ## Strings -/

/-- When a string target is left alone: an empty length does not meet an old
error code, and a length within the data has its terminator there too, unless
the target already is what would be assigned. -/
def StringSafe (s : Serializer) (value : List UInt8) : Prop :=
  (s.pBuffer.lenToRead ≤ 0 → s.iError = 0 ∨ value = []) ∧
  (0 < s.pBuffer.lenToRead → s.pBuffer.lenToRead ≤ s.pBuffer.getDataSize.toNat →
    (0 ≤ (s.pBuffer.pRead : Int) + toInt32 (s.pBuffer.lenToRead + 1) ∧
      (s.pBuffer.pRead : Int) + toInt32 (s.pBuffer.lenToRead + 1) ≤ s.pBuffer.pWrite) ∨
    value = s.pBuffer.getReadPtr.take s.pBuffer.lenToRead.toNat)

/-- **A string target**, by the length the operator measures. -/
theorem getString_spared_iff (value : List UInt8) :
    Spared s value (s.getString value) ↔ StringSafe s value := by
  unfold StringSafe
  by_cases hpos : 0 < s.pBuffer.lenToRead
  · have hnonpos : ¬ s.pBuffer.lenToRead ≤ 0 := by omega
    simp only [hnonpos, hpos, false_imp_iff, true_imp_iff, true_and]
    by_cases hover : s.pBuffer.lenToRead > s.pBuffer.getDataSize.toNat
    · have hget : s.getString value = (s.setError (-1), value) := by
        unfold DataBuffer.lenToRead at hpos hover
        simp only [Serializer.getString, if_pos hpos, if_pos hover]
      rw [hget]
      exact iff_of_true (fun _ => ⟨rfl, rfl⟩) (fun hle => absurd hle (by omega))
    · have hle : s.pBuffer.lenToRead ≤ s.pBuffer.getDataSize.toNat := by omega
      have hval := getString_assigned hpos hle value
      have hsettle := getString_settle hpos value
      rw [DataBuffer.skipString, if_neg hover] at hsettle
      simp only [hle, true_imp_iff]
      by_cases hmove : 0 ≤ (s.pBuffer.pRead : Int) + toInt32 (s.pBuffer.lenToRead + 1) ∧
          (s.pBuffer.pRead : Int) + toInt32 (s.pBuffer.lenToRead + 1) ≤ s.pBuffer.pWrite
      · rw [DataBuffer.moveReadPtr, if_pos hmove] at hsettle
        have hok : (s.getString value).1.iError = 0 := by rw [hsettle]; rfl
        exact iff_of_true (spared_of_ok hok) (Or.inl hmove)
      · rw [DataBuffer.moveReadPtr, if_neg hmove] at hsettle
        rw [or_iff_right hmove]
        constructor
        · intro hspared
          have hcode : (s.getString value).1.iError ≠ 0 := by
            rw [hsettle, Serializer.settle, setError_iError]
            decide
          exact (hspared hcode).1.symm.trans hval
        · intro hvalue _
          exact ⟨hval.trans hvalue.symm, by rw [hsettle]; rfl⟩
  · have hget : s.getString value = (s, []) := getString_nonpos value (not_lt.mp hpos)
    have hnonpos : s.pBuffer.lenToRead ≤ 0 := by omega
    simp only [hnonpos, hpos, false_imp_iff, true_imp_iff, and_true, hget]
    constructor
    · intro hspared
      by_cases hcode : s.iError = 0
      · exact Or.inl hcode
      · exact Or.inr (hspared hcode).1.symm
    · rintro (hcode | hvalue)
      · exact spared_of_ok hcode
      · intro _
        exact ⟨hvalue.symm, rfl⟩

end Targets

/-- **Failed extractions.**  When the targets of the operators are left alone,
for every state of the buffer and either byte-order mode. -/
theorem failed_extraction_spares_iff (h : Host) (s : Serializer) :
    (∀ k : Scalar, k ≠ .bool → ∀ value : k.Val,
      Spared s value (s.getScalar h k value) ↔
        s.pBuffer.pRead + k.width ≤ s.pBuffer.pWrite ∨
          k.convert h s.changeByteOrder (k.bits value) = k.bits value) ∧
    (∀ value : List UInt8, Spared s value (s.getString value) ↔ StringSafe s value) :=
  ⟨fun _ hk value => getScalar_spared_iff h hk value, getString_spared_iff⟩

theorem failed_extraction_spares_iff_host_order :
    Spared (.new (.ofData [] 0 0) false) (1 : Int16)
      (Serializer.getScalar .x86_64 .int16 (.new (.ofData [] 0 0) false) 1) :=
  ((failed_extraction_spares_iff .x86_64 (.new (.ofData [] 0 0) false)).1 .int16
    (by decide) 1).mpr (Or.inr (by decide))

/-- With nothing to read, a 1 becomes 256; with a terminator just beyond the
data, the string is assigned although the extraction fails. -/
theorem failed_target_changed :
    ¬ Spared (.new (.ofData [] 0 0) true) (1 : Int16)
      (Serializer.getScalar .x86_64 .int16 (.new (.ofData [] 0 0) true) 1) ∧
    ¬ Spared (.new (.ofData [97, 0] 2 1) true) ([] : List UInt8)
      (Serializer.getString (.new (.ofData [97, 0] 2 1) true) []) := by
  decide

end MyGenSvr.Ports
