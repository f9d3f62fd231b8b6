import MyGenSvr.Verified.Buffer

/-!
# `DataBuffer`

A byte buffer with a read and a write cursor.  The cursors are offsets from
`_pData`, and `pData` is the memory from `_pData` on, including whatever lies
after the buffer: `GetReadPtr` hands that memory to `strlen`, and `Write`
trusts a bounds test done in 32-bit unsigned arithmetic.

`Ordered` is the shape both constructors set up.  Under it the operations are
described by two lists: the bytes between the cursors (`unread`) and the room
behind the write cursor.
-/

namespace MyGenSvr.Ports

open MyGenSvr.Verified.Buffer

/-- The cursors and the memory of a `DataBuffer`. -/
structure DataBuffer where
  pData : List UInt8
  size : UInt32
  pRead : Nat
  pWrite : Nat
  deriving DecidableEq, Repr

/-- The constructor over existing memory that already holds `writedBytes`. -/
def DataBuffer.ofData (data : List UInt8) (size writedBytes : UInt32) :
    DataBuffer :=
  ⟨data, size, 0, writedBytes.toNat⟩

/-- `GetDataSize`: the pointer difference as an `unsigned int`. -/
def DataBuffer.getDataSize (b : DataBuffer) : UInt32 :=
  UInt32.ofNat b.pWrite - UInt32.ofNat b.pRead

/-- The bounds test of `Write`. -/
def DataBuffer.accepts (b : DataBuffer) (length : UInt32) : Bool :=
  !decide (UInt32.ofNat b.pWrite > b.size - length)

/-- `Write`: `none` is the return value -1. -/
def DataBuffer.write (b : DataBuffer) (src : List UInt8) (length : UInt32) :
    Option DataBuffer :=
  if b.accepts length then
    some
      { b with
        pData := splice b.pData b.pWrite (src.take length.toNat)
        pWrite := b.pWrite + length.toNat }
  else none

/-- `Read`: the bytes copied out, or `none` for the return value -1. -/
def DataBuffer.read (b : DataBuffer) (length : UInt32) :
    Option (List UInt8 × DataBuffer) :=
  if b.pRead + length.toNat > b.pWrite then none
  else
    some
      ((b.pData.drop b.pRead).take length.toNat,
        { b with pRead := b.pRead + length.toNat })

/-- `MoveReadPtr`: `none` is the return value -1. -/
def DataBuffer.moveReadPtr (b : DataBuffer) (offset : Int) : Option DataBuffer :=
  if (b.pRead : Int) + offset ≥ 0 ∧ (b.pRead : Int) + offset ≤ b.pWrite then
    some { b with pRead := ((b.pRead : Int) + offset).toNat }
  else none

/-- The memory `GetReadPtr` points to. -/
def DataBuffer.getReadPtr (b : DataBuffer) : List UInt8 := b.pData.drop b.pRead

/-! ## Cursor order -/

/-- A number below `2 ^ 32` survives the conversion to `unsigned int`. -/
theorem toNat_ofNat32 {n : Nat} (h : n < 2 ^ 32) : (UInt32.ofNat n).toNat = n :=
  UInt32.toNat_ofNat_of_lt' h

/-- The cursors are in order and the buffer lies in its memory. -/
structure Ordered (b : DataBuffer) : Prop where
  read_le_write : b.pRead ≤ b.pWrite
  write_le_size : b.pWrite ≤ b.size.toNat
  size_le_mem : b.size.toNat ≤ b.pData.length

/-- The bytes written and not yet read. -/
def DataBuffer.unread (b : DataBuffer) : List UInt8 :=
  (b.pData.drop b.pRead).take (b.pWrite - b.pRead)

/-- The memory behind the write cursor, inside the buffer and after it. -/
def DataBuffer.beyond (b : DataBuffer) : List UInt8 := b.pData.drop b.pWrite

namespace Ordered

variable {b : DataBuffer}

theorem write_le_mem (h : Ordered b) : b.pWrite ≤ b.pData.length :=
  h.write_le_size.trans h.size_le_mem

theorem unread_length (h : Ordered b) :
    b.unread.length = b.pWrite - b.pRead := by
  have hr := h.read_le_write
  have hw := h.write_le_mem
  rw [DataBuffer.unread, List.length_take, List.length_drop]
  omega

/-- What `GetReadPtr` points to is the unread bytes and the memory beyond. -/
theorem getReadPtr_eq (h : Ordered b) : b.getReadPtr = b.unread ++ b.beyond := by
  have hr := h.read_le_write
  have hsplit := List.take_append_drop (b.pWrite - b.pRead) (b.pData.drop b.pRead)
  rw [List.drop_drop, Nat.add_sub_cancel' hr] at hsplit
  exact hsplit.symm

theorem getDataSize_toNat (h : Ordered b) :
    b.getDataSize.toNat = b.unread.length := by
  have hr := h.read_le_write
  have hw := h.write_le_size
  have hs := b.size.toNat_lt
  have hnr : (UInt32.ofNat b.pRead).toNat = b.pRead :=
    toNat_ofNat32 (by omega)
  have hnw : (UInt32.ofNat b.pWrite).toNat = b.pWrite :=
    toNat_ofNat32 (by omega)
  rw [h.unread_length, DataBuffer.getDataSize, UInt32.toNat_sub, hnr, hnw]
  omega

/-- A write no longer than the buffer is accepted exactly when it fits. -/
theorem accepts_iff (h : Ordered b) {length : UInt32}
    (hl : length.toNat ≤ b.size.toNat) :
    b.accepts length = true ↔ b.pWrite + length.toNat ≤ b.size.toNat := by
  have hw := h.write_le_size
  have hs := b.size.toNat_lt
  have hnw : (UInt32.ofNat b.pWrite).toNat = b.pWrite :=
    toNat_ofNat32 (by omega)
  have hsub : (b.size - length).toNat = b.size.toNat - length.toNat :=
    UInt32.toNat_sub_of_le _ _ (UInt32.le_iff_toNat_le.mpr hl)
  simp only [DataBuffer.accepts, Bool.not_eq_true', decide_eq_false_iff_not, gt_iff_lt,
    UInt32.lt_iff_toNat_lt, hnw, hsub]
  omega

end Ordered

/-- A buffer over memory that holds nothing but `n` bytes to read. -/
theorem ofData_ordered {m : List UInt8} {n : UInt32} (hn : n.toNat ≤ m.length) :
    Ordered (.ofData m n n) := ⟨Nat.zero_le _, Nat.le_refl _, hn⟩

theorem ofData_unread (m : List UInt8) (n : UInt32) :
    (DataBuffer.ofData m n n).unread = m.take n.toNat := rfl

/-! ## The operations on the unread bytes -/

section Operations

variable {b b' : DataBuffer}

/-- **Write.**  Inside the buffer, a write appends its bytes to the unread ones
and keeps everything below the write cursor and beyond the bytes written. -/
theorem write_fits (h : Ordered b) {src : List UInt8} {length : UInt32}
    (hsrc : src.length = length.toNat)
    (hfit : b.pWrite + length.toNat ≤ b.size.toNat) :
    ∃ b', b.write src length = some b' ∧ Ordered b' ∧ b'.size = b.size ∧
      b'.pRead = b.pRead ∧ b'.pWrite = b.pWrite + length.toNat ∧
      b'.pData.take b.pWrite = b.pData.take b.pWrite ∧
      b'.pData = splice b.pData b.pWrite src := by
  have hacc : b.accepts length = true := (h.accepts_iff (by omega)).mpr hfit
  have htake : src.take length.toNat = src := by
    rw [← hsrc, List.take_length]
  have hmem := h.size_le_mem
  have hlen : (splice b.pData b.pWrite src).length = b.pData.length :=
    splice_length (by omega)
  refine ⟨_, if_pos hacc, ?_, rfl, rfl, rfl, ?_, ?_⟩
  · exact
      { read_le_write := Nat.le_add_right_of_le h.read_le_write
        write_le_size := hfit
        size_le_mem := by
          simp only [htake, hlen]
          exact hmem }
  · simp only [htake]
    exact splice_take_below h.write_le_mem (Nat.le_refl _)
  · simp only [htake]

/-- **Read.**  A read takes the front of the unread bytes. -/
theorem read_eq (h : Ordered b) (length : UInt32) :
    b.read length =
      if length.toNat ≤ b.unread.length then
        some (b.unread.take length.toNat,
          { b with pRead := b.pRead + length.toNat })
      else none := by
  have hlen := h.unread_length
  have hr := h.read_le_write
  by_cases hfit : length.toNat ≤ b.unread.length
  · have htest : ¬ b.pRead + length.toNat > b.pWrite := by omega
    rw [if_pos hfit, DataBuffer.read, if_neg htest, DataBuffer.unread, List.take_take,
      Nat.min_eq_left (by omega)]
  · have htest : b.pRead + length.toNat > b.pWrite := by omega
    rw [if_neg hfit, DataBuffer.read, if_pos htest]

/-- A move of the read cursor moves nothing else. -/
theorem moveReadPtr_some {offset : Int} (hm : b.moveReadPtr offset = some b') :
    b'.pData = b.pData ∧ (b'.pRead : Int) = b.pRead + offset := by
  unfold DataBuffer.moveReadPtr at hm
  by_cases htest : (b.pRead : Int) + offset ≥ 0 ∧ (b.pRead : Int) + offset ≤ b.pWrite
  · rw [if_pos htest, Option.some.injEq] at hm
    subst hm
    exact ⟨rfl, Int.toNat_of_nonneg htest.1⟩
  · rw [if_neg htest] at hm
    exact absurd hm (by simp)

/-- Moving the read cursor over `n` unread bytes. -/
theorem moveReadPtr_eq (h : Ordered b) (n : Nat) :
    b.moveReadPtr n =
      if n ≤ b.unread.length then some { b with pRead := b.pRead + n } else none := by
  have hlen := h.unread_length
  have hr := h.read_le_write
  by_cases hfit : n ≤ b.unread.length
  · have htest : (b.pRead : Int) + n ≥ 0 ∧ (b.pRead : Int) + n ≤ b.pWrite := by omega
    rw [if_pos hfit, DataBuffer.moveReadPtr, if_pos htest]
    have hcast : ((b.pRead : Int) + n).toNat = b.pRead + n := by omega
    rw [hcast]
  · have htest : ¬((b.pRead : Int) + n ≥ 0 ∧ (b.pRead : Int) + n ≤ b.pWrite) := by omega
    rw [if_neg hfit, DataBuffer.moveReadPtr, if_neg htest]

/-- The buffer with its read cursor moved over unread bytes. -/
theorem Ordered.advance (h : Ordered b) {n : Nat} (hn : n ≤ b.unread.length) :
    Ordered { b with pRead := b.pRead + n } := by
  have hlen := h.unread_length
  have hr := h.read_le_write
  exact ⟨by simp only; omega, h.write_le_size, h.size_le_mem⟩

/-- A read keeps the cursors in order. -/
theorem read_ordered (h : Ordered b) {length : UInt32} {bytes : List UInt8}
    (hr : b.read length = some (bytes, b')) : Ordered b' := by
  rw [read_eq h] at hr
  by_cases hfit : length.toNat ≤ b.unread.length
  · rw [if_pos hfit, Option.some.injEq, Prod.mk.injEq] at hr
    exact hr.2 ▸ h.advance hfit
  · rw [if_neg hfit] at hr
    exact absurd hr (by simp)

/-- A move of the read cursor, in either direction, keeps the cursors in order. -/
theorem moveReadPtr_ordered (h : Ordered b) {offset : Int}
    (hm : b.moveReadPtr offset = some b') : Ordered b' := by
  unfold DataBuffer.moveReadPtr at hm
  by_cases htest : (b.pRead : Int) + offset ≥ 0 ∧ (b.pRead : Int) + offset ≤ b.pWrite
  · rw [if_pos htest, Option.some.injEq] at hm
    subst hm
    exact ⟨by simp only; omega, h.write_le_size, h.size_le_mem⟩
  · rw [if_neg htest] at hm
    exact absurd hm (by simp)

theorem unread_advance (b : DataBuffer) (n : Nat) :
    DataBuffer.unread { b with pRead := b.pRead + n } = b.unread.drop n := by
  simp only [DataBuffer.unread, List.drop_take, List.drop_drop, Nat.sub_sub]

end Operations

end MyGenSvr.Ports
