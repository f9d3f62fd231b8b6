import MyGenSvr.Ports.Serializer

/-!
# The bounds test of `DataBuffer::Write`

`Write` compares the bytes already written with `_size - length`, an unsigned
difference.  For a length above the buffer size the difference wraps around to more
than the buffer can hold, and the write is let through.

## Main results

* `accepts_iff_all` — what the test lets through, over all lengths.
* `write_respects_capacity_iff` — exactly when a write keeps to the capacity, and
  what that says about the operators of `Serializer`.
-/

namespace MyGenSvr.Ports

open MyGenSvr.Verified.Buffer

/-- `Write`: the return value, and the buffer afterwards. -/
def DataBuffer.writeResult (b : DataBuffer) (src : List UInt8) (length : UInt32) :
    Int × DataBuffer :=
  match b.write src length with
  | some b' => (0, b')
  | none => (-1, b)

/-- Exactly the bytes after the write cursor are set to `bytes`, and the cursor
stands behind them. -/
structure Writes (b b' : DataBuffer) (bytes : List UInt8) : Prop where
  size_eq : b'.size = b.size
  read_eq : b'.pRead = b.pRead
  write_eq : b'.pWrite = b.pWrite + bytes.length
  mem_eq : b'.pData.length = b.pData.length
  below : b'.pData.take b.pWrite = b.pData.take b.pWrite
  bytes_eq : (b'.pData.drop b.pWrite).take bytes.length = bytes
  above : b'.pData.drop (b.pWrite + bytes.length) = b.pData.drop (b.pWrite + bytes.length)

/-- A write keeps to the capacity: it succeeds exactly when it fits, and then
does what it should; otherwise nothing changes. -/
def DataBuffer.RespectsCapacity (b : DataBuffer) (src : List UInt8) (length : UInt32) : Prop :=
  (b.pWrite + length.toNat ≤ b.size.toNat →
    (b.writeResult src length).1 = 0 ∧
      Writes b (b.writeResult src length).2 (src.take length.toNat)) ∧
  (b.size.toNat < b.pWrite + length.toNat → b.writeResult src length = (-1, b))

/-- The lengths the test of `Write` judges rightly: those up to the buffer size. -/
def DataBuffer.Guarded (b : DataBuffer) (length : UInt32) : Prop :=
  length.toNat ≤ b.size.toNat

instance (b : DataBuffer) (length : UInt32) : Decidable (b.Guarded length) := by
  unfold DataBuffer.Guarded
  infer_instance

section Guard

variable {b : DataBuffer} (hw : b.pWrite ≤ b.size.toNat)
include hw

/-- **What the test lets through**: what fits, and the lengths above the buffer
size. -/
theorem accepts_iff_all (length : UInt32) :
    b.accepts length = true ↔
      b.pWrite + length.toNat ≤ b.size.toNat ∨ ¬ b.Guarded length := by
  have hsize := b.size.toNat_lt
  have hlength := length.toNat_lt
  have hused : (UInt32.ofNat b.pWrite).toNat = b.pWrite := toNat_ofNat32 (by omega)
  unfold DataBuffer.Guarded
  simp only [DataBuffer.accepts, Bool.not_eq_true', decide_eq_false_iff_not, gt_iff_lt,
    UInt32.lt_iff_toNat_lt, hused, UInt32.toNat_sub]
  omega

/-- A write that fits. -/
theorem writeResult_fits (hmem : b.size.toNat ≤ b.pData.length) {src : List UInt8}
    {length : UInt32} (hsrc : length.toNat ≤ src.length)
    (hfit : b.pWrite + length.toNat ≤ b.size.toNat) :
    (b.writeResult src length).1 = 0 ∧
      Writes b (b.writeResult src length).2 (src.take length.toNat) := by
  have hacc := (accepts_iff_all hw length).mpr (Or.inl hfit)
  have hlen : (src.take length.toNat).length = length.toNat := by
    rw [List.length_take, Nat.min_eq_left hsrc]
  have hresult : b.writeResult src length =
      (0, { b with
        pData := splice b.pData b.pWrite (src.take length.toNat)
        pWrite := b.pWrite + length.toNat }) := by
    rw [DataBuffer.writeResult, DataBuffer.write, if_pos hacc]
  have hat : b.pWrite ≤ b.pData.length := by omega
  rw [hresult]
  refine ⟨rfl, ?_⟩
  exact
    { size_eq := rfl
      read_eq := rfl
      write_eq := by rw [hlen]
      mem_eq := splice_length (by rw [hlen]; omega)
      below := splice_take_below hat (Nat.le_refl _)
      bytes_eq := splice_range hat
      above := splice_drop_above hat }

/-- **Exactly the guarded lengths keep to the capacity.** -/
theorem respectsCapacity_iff (hmem : b.size.toNat ≤ b.pData.length) {src : List UInt8}
    {length : UInt32} (hsrc : length.toNat ≤ src.length) :
    b.RespectsCapacity src length ↔ b.Guarded length := by
  constructor
  · intro hrespects
    by_contra hbad
    -- an unguarded length is too long, and let through
    have hlong : b.size.toNat < b.pWrite + length.toNat := by
      unfold DataBuffer.Guarded at hbad
      omega
    have hacc := (accepts_iff_all hw length).mpr (Or.inr hbad)
    have hresult := congrArg Prod.fst (hrespects.2 hlong)
    rw [DataBuffer.writeResult, DataBuffer.write, if_pos hacc] at hresult
    exact absurd hresult (show ¬ (0 : Int) = -1 by decide)
  · intro hguard
    refine ⟨fun hfit => writeResult_fits hw hmem hsrc hfit, fun hlong => ?_⟩
    have hacc : ¬ b.accepts length = true := by
      rw [accepts_iff_all hw length]
      exact not_or.mpr ⟨Nat.not_le.mpr hlong, not_not_intro hguard⟩
    rw [DataBuffer.writeResult, DataBuffer.write, if_neg hacc]

end Guard

/-! ## The operators -/

/-- The write cursor after the access of an operator. -/
theorem settle_write_pWrite (s : Serializer) (src : List UInt8) (length : UInt32) :
    (s.settle (s.pBuffer.write src length)).pBuffer.pWrite =
      if s.pBuffer.accepts length then s.pBuffer.pWrite + length.toNat
      else s.pBuffer.pWrite := by
  unfold DataBuffer.write
  split <;> rfl

/-- **An operator stores nothing past the buffer** exactly for a guarded length. -/
theorem settle_write_inside {s : Serializer} (hw : s.pBuffer.pWrite ≤ s.pBuffer.size.toNat)
    (src : List UInt8) (length : UInt32) :
    (s.settle (s.pBuffer.write src length)).pBuffer.pWrite ≤ s.pBuffer.size.toNat ↔
      s.pBuffer.Guarded length := by
  have hacc := accepts_iff_all hw length
  rw [settle_write_pWrite]
  by_cases hguard : s.pBuffer.Guarded length
  · rw [iff_true_right hguard]
    split
    · next hlet => exact (hacc.mp hlet).resolve_right (not_not_intro hguard)
    · exact hw
  · rw [if_pos (hacc.mpr (Or.inr hguard))]
    have hbad := hguard
    unfold DataBuffer.Guarded at hbad
    rw [iff_false_right hguard]
    omega

/-- **When writes respect the capacity.**  For every buffer with its cursor inside
and every 32-bit length, `Write` does what it should exactly for a guarded length;
and an operator of `Serializer`, on a scalar or on a string of any length, leaves
the write cursor inside the buffer exactly when the length it hands to `Write` is
guarded. -/
theorem write_respects_capacity_iff (b : DataBuffer) (hw : b.pWrite ≤ b.size.toNat) :
    (∀ (src : List UInt8) (length : UInt32), b.size.toNat ≤ b.pData.length →
      length.toNat ≤ src.length →
      (b.RespectsCapacity src length ↔ b.Guarded length)) ∧
    (∀ (h : Host) (s : Serializer) (k : Scalar) (v : k.Val), s.pBuffer = b →
      ((s.putScalar h k v).pBuffer.pWrite ≤ b.size.toNat ↔
        b.Guarded (UInt32.ofNat k.width))) ∧
    (∀ (s : Serializer) (value : List UInt8), s.pBuffer = b →
      ((s.putString value).pBuffer.pWrite ≤ b.size.toNat ↔
        b.Guarded (UInt32.ofNat (value.length + 1)))) := by
  refine ⟨?_, ?_, ?_⟩
  · intro src length hmem hsrc
    exact respectsCapacity_iff hw hmem hsrc
  · intro h s k v hs
    subst hs
    rw [putScalar_settle]
    exact settle_write_inside hw _ _
  · intro s value hs
    subst hs
    rw [putString_settle]
    exact settle_write_inside hw _ _

/-- Two bytes into a buffer of four, a `UInt32` into a buffer of three, and a
string of three characters into one of three. -/
theorem write_respects_capacity_iff_small :
    (DataBuffer.ofData [0, 0, 0, 0] 4 0).RespectsCapacity [7, 8] 2 ∧
    ¬ ((Serializer.new (.ofData [0, 0, 0, 0] 3 0) true).putScalar .x86_64 .uInt32
        (5 : UInt32)).pBuffer.pWrite ≤ 3 ∧
    ¬ ((Serializer.new (.ofData [0, 0, 0, 0] 3 0) true).putString [65, 66, 67]).pBuffer.pWrite
        ≤ 3 := by
  obtain ⟨hwrite, -, -⟩ :=
    write_respects_capacity_iff (.ofData [0, 0, 0, 0] 4 0) (by decide)
  obtain ⟨-, hscalar, hstring⟩ :=
    write_respects_capacity_iff (.ofData [0, 0, 0, 0] 3 0) (by decide)
  refine ⟨?_, ?_, ?_⟩
  · exact (hwrite _ _ (by decide) (by decide)).mpr (by decide)
  · intro hle
    exact absurd ((hscalar _ _ .uInt32 _ rfl).mp hle) (by decide)
  · intro hle
    exact absurd ((hstring _ _ rfl).mp hle) (by decide)

/-- **A write past the end**: two bytes are let through into a buffer of one. -/
theorem write_past_the_end :
    ¬ ∀ (b : DataBuffer) (src : List UInt8) (length : UInt32),
      b.pWrite ≤ b.size.toNat → b.size.toNat ≤ b.pData.length →
      length.toNat ≤ src.length → b.RespectsCapacity src length := by
  intro hall
  have hrespects := hall (.ofData [0, 0] 1 0) [7, 8] 2 (by decide) (by decide) (by decide)
  have hresult := congrArg Prod.fst (hrespects.2 (by decide))
  exact absurd hresult (by decide)

end MyGenSvr.Ports
