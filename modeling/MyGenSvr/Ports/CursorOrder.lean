import MyGenSvr.Ports.WriteGuard
import MyGenSvr.Verified.Machine

/-!
# The order of the cursors

All five operations of a `DataBuffer`, in any order, from either constructor.
`MoveReadPtr` keeps the read cursor between `_pData` and the write cursor;
`MoveWritePtr` keeps the write cursor between `_pData` and the end of the buffer,
and does not look at the read cursor.  A move back over bytes already read
therefore leaves the write cursor below the read cursor, and `GetDataSize` wraps.

`malloc` is taken to have returned the memory it was asked for.

## Main results

* `InBuffer.after_inOrder_iff` — what one operation does to the order.
* `cursor_order_iff` — exactly when the order holds after every operation.
-/

namespace MyGenSvr.Ports

open MyGenSvr.Verified.Buffer
open MyGenSvr.Verified.Machine

/-- The constructor that allocates: `block` is the memory from the address
`malloc` returned. -/
def DataBuffer.ofSize (block : List UInt8) (size : UInt32) : DataBuffer := ⟨block, size, 0, 0⟩

/-- `MoveWritePtr`: `none` is the return value -1. -/
def DataBuffer.moveWritePtr (b : DataBuffer) (offset : Int) : Option DataBuffer :=
  if (b.pWrite : Int) + offset ≥ 0 ∧ (b.pWrite : Int) + offset ≤ b.size.toNat then
    some { b with pWrite := ((b.pWrite : Int) + offset).toNat }
  else none

/-- `Reset`. -/
def DataBuffer.reset (b : DataBuffer) : DataBuffer := { b with pRead := 0, pWrite := 0 }

/-- A call of one of the operations that move a cursor. -/
inductive BufferOp where
  | write (src : List UInt8) (length : UInt32)
  | read (length : UInt32)
  | moveReadPtr (offset : Int32)
  | moveWritePtr (offset : Int32)
  | reset
  deriving DecidableEq

/-- The return value of an operation, and the buffer afterwards. -/
def DataBuffer.returning (b : DataBuffer) : Option DataBuffer → Int × DataBuffer
  | some b' => (0, b')
  | none => (-1, b)

/-- A call on a buffer.  `Reset` returns nothing, which counts as 0. -/
def DataBuffer.perform (b : DataBuffer) : BufferOp → Int × DataBuffer
  | .write src length => b.writeResult src length
  | .read length => b.returning ((b.read length).map Prod.snd)
  | .moveReadPtr offset => b.returning (b.moveReadPtr offset.toInt)
  | .moveWritePtr offset => b.returning (b.moveWritePtr offset.toInt)
  | .reset => (0, b.reset)

/-- The buffer after a call. -/
def DataBuffer.after (b : DataBuffer) (op : BufferOp) : DataBuffer := (b.perform op).2

/-- What either constructor makes, over memory at least as large as the buffer. -/
inductive Constructed : DataBuffer → Prop where
  | ofSize (block : List UInt8) (size : UInt32) (hmem : size.toNat ≤ block.length) :
      Constructed (.ofSize block size)
  | ofData (data : List UInt8) (size writedBytes : UInt32) (hmem : size.toNat ≤ data.length)
      (hwrited : writedBytes ≤ size) : Constructed (.ofData data size writedBytes)

/-- A write is no longer than the free space. -/
def WriteFits (b : DataBuffer) : BufferOp → Prop
  | .write _ length => length.toNat ≤ b.size.toNat - b.pWrite
  | _ => True

instance instDecidableWriteFits (b : DataBuffer) : (op : BufferOp) → Decidable (WriteFits b op)
  | .write _ length => inferInstanceAs (Decidable (length.toNat ≤ b.size.toNat - b.pWrite))
  | .read _ | .moveReadPtr _ | .moveWritePtr _ | .reset => isTrue trivial

/-! ## What the order is -/

/-- The cursors are in order inside the buffer, and `GetDataSize` is their distance. -/
structure InOrder (b : DataBuffer) : Prop where
  read_le_write : b.pRead ≤ b.pWrite
  write_le_size : b.pWrite ≤ b.size.toNat
  dataSize_eq : b.getDataSize.toNat = b.pWrite - b.pRead
  dataSize_le : b.getDataSize ≤ b.size

/-- A call that returned -1 left the cursors where they were. -/
def RefusesCleanly (b : DataBuffer) (op : BufferOp) : Prop :=
  (b.perform op).1 = -1 →
    (b.after op).pRead = b.pRead ∧ (b.after op).pWrite = b.pWrite ∧ (b.after op).size = b.size

/-- A move of the write cursor that stays in the buffer stays above the read cursor. -/
def KeepsBehind (b : DataBuffer) : BufferOp → Prop
  | .moveWritePtr offset =>
      0 ≤ (b.pWrite : Int) + offset.toInt → (b.pWrite : Int) + offset.toInt ≤ b.size.toNat →
        (b.pRead : Int) ≤ b.pWrite + offset.toInt
  | _ => True

instance instDecidableKeepsBehind (b : DataBuffer) :
    (op : BufferOp) → Decidable (KeepsBehind b op)
  | .moveWritePtr offset =>
      inferInstanceAs (Decidable (0 ≤ (b.pWrite : Int) + offset.toInt →
        (b.pWrite : Int) + offset.toInt ≤ b.size.toNat →
          (b.pRead : Int) ≤ b.pWrite + offset.toInt))
  | .write _ _ | .read _ | .moveReadPtr _ | .reset => isTrue trivial

/-! ## One call -/

section Calls

variable (b : DataBuffer)

theorem after_write (src : List UInt8) {length : UInt32} (hw : b.pWrite ≤ b.size.toNat)
    (hfit : length.toNat ≤ b.size.toNat - b.pWrite) :
    (b.after (.write src length)).pRead = b.pRead ∧
      (b.after (.write src length)).pWrite = b.pWrite + length.toNat ∧
      (b.after (.write src length)).size = b.size := by
  have hacc : b.accepts length = true := (accepts_iff_all hw length).mpr (Or.inl (by omega))
  have hafter : b.after (.write src length) =
      { b with
        pData := splice b.pData b.pWrite (src.take length.toNat)
        pWrite := b.pWrite + length.toNat } := by
    rw [DataBuffer.after, DataBuffer.perform, DataBuffer.writeResult, DataBuffer.write,
      if_pos hacc]
  rw [hafter]
  exact ⟨rfl, rfl, rfl⟩

theorem after_read (length : UInt32) :
    b.after (.read length) =
      if b.pRead + length.toNat ≤ b.pWrite then { b with pRead := b.pRead + length.toNat }
      else b := by
  rw [DataBuffer.after, DataBuffer.perform, DataBuffer.read]
  by_cases hfit : b.pRead + length.toNat ≤ b.pWrite
  · rw [if_pos hfit, if_neg (by omega)]
    rfl
  · rw [if_neg hfit, if_pos (by omega)]
    rfl

theorem after_moveReadPtr (offset : Int32) :
    b.after (.moveReadPtr offset) =
      if 0 ≤ (b.pRead : Int) + offset.toInt ∧ (b.pRead : Int) + offset.toInt ≤ b.pWrite then
        { b with pRead := ((b.pRead : Int) + offset.toInt).toNat }
      else b := by
  rw [DataBuffer.after, DataBuffer.perform, DataBuffer.moveReadPtr]
  split <;> rfl

theorem after_moveWritePtr (offset : Int32) :
    b.after (.moveWritePtr offset) =
      if 0 ≤ (b.pWrite : Int) + offset.toInt ∧
          (b.pWrite : Int) + offset.toInt ≤ b.size.toNat then
        { b with pWrite := ((b.pWrite : Int) + offset.toInt).toNat }
      else b := by
  rw [DataBuffer.after, DataBuffer.perform, DataBuffer.moveWritePtr]
  split <;> rfl

/-- A call that is refused leaves the whole buffer as it was. -/
theorem refusesCleanly (op : BufferOp) : RefusesCleanly b op := by
  have hreturning : ∀ r, (b.returning r).1 = -1 → (b.returning r).2 = b := by
    intro r h
    cases r with
    | none => rfl
    | some b' => exact absurd h (show ¬(0 : Int) = -1 by decide)
  have hsame : (b.perform op).1 = -1 → b.after op = b := by
    cases op with
    | write src length => exact hreturning (b.write src length)
    | read length => exact hreturning _
    | moveReadPtr offset => exact hreturning _
    | moveWritePtr offset => exact hreturning _
    | reset => exact fun h => absurd h (show ¬(0 : Int) = -1 by decide)
  intro h
  rw [hsame h]
  exact ⟨rfl, rfl, rfl⟩

end Calls

/-- What no call breaks: both cursors point into the buffer or to its end. -/
structure InBuffer (b : DataBuffer) : Prop where
  read_le_size : b.pRead ≤ b.size.toNat
  write_le_size : b.pWrite ≤ b.size.toNat

section Order

variable {b : DataBuffer}

/-- For cursors in the buffer, the order is that of the two cursors. -/
theorem InBuffer.inOrder_iff (h : InBuffer b) : InOrder b ↔ b.pRead ≤ b.pWrite := by
  constructor
  · exact InOrder.read_le_write
  · intro hle
    have hread := h.read_le_size
    have hwrite := h.write_le_size
    have hsize := b.size.toNat_lt
    have hnr : (UInt32.ofNat b.pRead).toNat = b.pRead := toNat_ofNat32 (by omega)
    have hnw : (UInt32.ofNat b.pWrite).toNat = b.pWrite := toNat_ofNat32 (by omega)
    have hdata : b.getDataSize.toNat = b.pWrite - b.pRead := by
      rw [DataBuffer.getDataSize, UInt32.toNat_sub, hnr, hnw]
      omega
    refine ⟨hle, hwrite, hdata, ?_⟩
    rw [UInt32.le_iff_toNat_le, hdata]
    omega

theorem InBuffer.after (h : InBuffer b) {op : BufferOp} (hfit : WriteFits b op) :
    InBuffer (b.after op) := by
  have hread := h.read_le_size
  have hwrite := h.write_le_size
  cases op with
  | write src length =>
      obtain ⟨hr, hw, hs⟩ := after_write b src hwrite hfit
      have hlen : length.toNat ≤ b.size.toNat - b.pWrite := hfit
      constructor
      · rw [hr, hs]
        exact hread
      · rw [hw, hs]
        omega
  | read length =>
      rw [after_read]
      split
      · exact ⟨by simp only; omega, hwrite⟩
      · exact h
  | moveReadPtr offset =>
      rw [after_moveReadPtr]
      split
      · exact ⟨by simp only; omega, hwrite⟩
      · exact h
  | moveWritePtr offset =>
      rw [after_moveWritePtr]
      split
      · exact ⟨hread, by simp only; omega⟩
      · exact h
  | reset => exact ⟨Nat.zero_le _, Nat.zero_le _⟩

/-- **One call**: out of an ordered buffer, exactly a move of the write cursor over
the read cursor breaks the order. -/
theorem InBuffer.after_inOrder_iff (h : InBuffer b) (hle : b.pRead ≤ b.pWrite) {op : BufferOp}
    (hfit : WriteFits b op) : InOrder (b.after op) ↔ KeepsBehind b op := by
  have hwrite := h.write_le_size
  rw [(h.after hfit).inOrder_iff]
  cases op with
  | write src length =>
      obtain ⟨hr, hw, _⟩ := after_write b src hwrite hfit
      rw [hr, hw]
      exact iff_of_true (by omega) trivial
  | read length =>
      rw [after_read]
      split
      · exact iff_of_true (by simp only; omega) trivial
      · exact iff_of_true hle trivial
  | moveReadPtr offset =>
      rw [after_moveReadPtr]
      split
      · exact iff_of_true (by simp only; omega) trivial
      · exact iff_of_true hle trivial
  | moveWritePtr offset =>
      rw [after_moveWritePtr]
      simp only [KeepsBehind]
      split
      · simp only
        omega
      · exact iff_of_true hle (by omega)
  | reset => exact iff_of_true (Nat.le_refl _) trivial

theorem Constructed.inBuffer (h : Constructed b) : InBuffer b := by
  cases h with
  | ofSize block size => exact ⟨Nat.zero_le _, Nat.zero_le _⟩
  | ofData data size writedBytes _ hwrited =>
      exact ⟨Nat.zero_le _, UInt32.le_iff_toNat_le.mp hwrited⟩

theorem Constructed.read_le_write (h : Constructed b) : b.pRead ≤ b.pWrite := by
  cases h with
  | ofSize block size => exact Nat.le_refl _
  | ofData data size writedBytes => exact Nat.zero_le _

end Order

/-! ## Any sequence of calls -/

/-- **The cursor order.**  From either constructor, with writes that fit, the order
holds after every call, and every refused call leaves the cursors alone, exactly when
no move takes the write cursor below the read cursor. -/
theorem cursor_order_iff {b : DataBuffer} (hb : Constructed b) (ops : List BufferOp)
    (hfits : EachStep DataBuffer.after WriteFits b ops) :
    Always DataBuffer.after InOrder b ops ∧ EachStep DataBuffer.after RefusesCleanly b ops ↔
      EachStep DataBuffer.after KeepsBehind b ops := by
  have hstart := hb.inBuffer
  have hrefuses : EachStep DataBuffer.after RefusesCleanly b ops :=
    EachStep.of_forall refusesCleanly ops b
  have hiff : Always DataBuffer.after InOrder b ops ↔
      EachStep DataBuffer.after KeepsBehind b ops := by
    refine always_iff (I := InBuffer) ?_ ?_ ops b hstart
      (hstart.inOrder_iff.mpr hb.read_le_write) hfits
    · intro s op hs hfit
      exact hs.after hfit
    · intro s op hs hordered hfit
      exact hs.after_inOrder_iff hordered.read_le_write hfit
  constructor
  · intro h
    exact hiff.mp h.1
  · intro h
    exact ⟨hiff.mpr h, hrefuses⟩

theorem cursor_order_iff_five_calls :
    Always DataBuffer.after InOrder (.ofSize [1, 2, 3, 4] 4)
        [.write [7, 8, 9] 3, .read 2, .moveReadPtr (-1), .moveWritePtr (-1), .moveReadPtr 9] ∧
      EachStep DataBuffer.after RefusesCleanly (.ofSize [1, 2, 3, 4] 4)
        [.write [7, 8, 9] 3, .read 2, .moveReadPtr (-1), .moveWritePtr (-1), .moveReadPtr 9] :=
  (cursor_order_iff (.ofSize [1, 2, 3, 4] 4 (by decide)) _ (by decide)).mpr (by decide)

/-- Three bytes written, two read, and the write cursor moved back by two: it stands
below the read cursor, and the data size is `2 ^ 32 - 1`. -/
theorem write_cursor_overtaken :
    let b : DataBuffer := .ofSize [1, 2, 3, 4] 4
    let ops : List BufferOp := [.write [7, 8, 9] 3, .read 2, .moveWritePtr (-2)]
    Constructed b ∧ EachStep DataBuffer.after WriteFits b ops ∧
      ¬Always DataBuffer.after InOrder b ops ∧
      (ops.foldl DataBuffer.after b).getDataSize = 4294967295 := by
  have hbad : ¬Always DataBuffer.after InOrder (.ofSize [1, 2, 3, 4] 4)
      [.write [7, 8, 9] 3, .read 2, .moveWritePtr (-2)] :=
    fun h => absurd h.2.2.2.read_le_write (by decide)
  exact ⟨.ofSize [1, 2, 3, 4] 4 (by decide), by decide, hbad, by decide⟩

end MyGenSvr.Ports
