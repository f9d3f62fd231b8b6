import MyGenSvr.Ports.CursorOrder
import MyGenSvr.Verified.BoundedTape

/-!
# A buffer is a tape

What is written to a `DataBuffer` is appended to a tape with room for `_size` bytes, and
`Read` and `MoveReadPtr` act on a position of it.  `MoveWritePtr` takes the last bytes back
when it moves backwards; forwards it would append whatever the memory holds, and a move
below the read cursor has no counterpart.

## Main results

* `buffer_is_tape` — the return values and the bytes read, over any sequence of calls.
* `buffer_fifo` — no byte is lost or doubled between writes and reads.
-/

namespace MyGenSvr.Ports

open MyGenSvr.Verified.Buffer
open MyGenSvr.Verified.BoundedTape
open MyGenSvr.Verified.Machine

/-- The bytes that a call copies out. -/
def DataBuffer.copied (b : DataBuffer) : BufferOp → List UInt8
  | .read length => ((b.read length).map Prod.fst).getD []
  | _ => []

/-- A call: its return value, the bytes copied out, and the buffer afterwards. -/
def DataBuffer.call (b : DataBuffer) (op : BufferOp) : (Int × List UInt8) × DataBuffer :=
  (((b.perform op).1, b.copied op), b.after op)

/-- What the call asks of the tape. -/
def BufferOp.onTape : BufferOp → TapeOp UInt8
  | .write src _ => .write src
  | .read length => .read length.toNat
  | .moveReadPtr offset => .seek offset.toInt
  | .moveWritePtr offset => .unwrite (-offset.toInt).toNat
  | .reset => .clear

/-- What the call returns for it. -/
def returned (out : Bool × List UInt8) : Int × List UInt8 := (if out.1 then 0 else -1, out.2)

/-- A write of a source of its length that the bounds test judges rightly; a move of the
write cursor backwards, and not over the read cursor. -/
def TapeCall (b : DataBuffer) : BufferOp → Prop
  | .write src length => src.length = length.toNat ∧ b.Guarded length
  | .moveWritePtr offset => offset.toInt ≤ 0 ∧ KeepsBehind b (.moveWritePtr offset)
  | _ => True

instance instDecidableTapeCall (b : DataBuffer) : (op : BufferOp) → Decidable (TapeCall b op)
  | .write src length =>
      inferInstanceAs (Decidable (src.length = length.toNat ∧ b.Guarded length))
  | .moveWritePtr offset =>
      inferInstanceAs (Decidable (offset.toInt ≤ 0 ∧ KeepsBehind b (.moveWritePtr offset)))
  | .read _ | .moveReadPtr _ | .reset => isTrue trivial

/-- The bytes that a call has stored, by what it returned. -/
def stored : BufferOp × (Int × List UInt8) → List UInt8
  | (.write src _, out) => if out.1 = 0 then src else []
  | _ => []

/-- The buffer shows the tape. -/
structure OnTape (b : DataBuffer) (t : Tape UInt8) : Prop where
  ordered : Ordered b
  cap : t.cap = b.size.toNat
  written : t.written = b.pData.take b.pWrite
  pos : t.pos = b.pRead

/-- What the outcome of a call says of the outcome on the tape. -/
def SameOutcome (c : (Int × List UInt8) × DataBuffer) (o : (Bool × List UInt8) × Tape UInt8) :
    Prop :=
  c.1 = returned o.1 ∧ OnTape c.2 o.2

/-! ## One call -/

section Calls

variable {b : DataBuffer} {t : Tape UInt8} (h : OnTape b t)
include h

theorem OnTape.written_length : t.written.length = b.pWrite := by
  rw [h.written, List.length_take, Nat.min_eq_left h.ordered.write_le_mem]

theorem OnTape.unread_eq : t.unread = b.unread := by
  rw [Tape.unread, h.written, h.pos, List.drop_take]
  rfl

/-- A call that is refused. -/
theorem OnTape.refused : SameOutcome ((-1, []), b) ((false, []), t) := ⟨rfl, h⟩

theorem call_write {src : List UInt8} {length : UInt32} (hsrc : src.length = length.toNat)
    (hguard : b.Guarded length) :
    SameOutcome (b.call (.write src length)) (t.step (.write src)) := by
  have hlength := h.written_length
  have hcap := h.cap
  obtain ⟨hfits, hlong⟩ :=
    (respectsCapacity_iff h.ordered.write_le_size h.ordered.size_le_mem hsrc.ge).mpr hguard
  rw [Tape.step, Tape.write]
  split
  · next hroom =>
      obtain ⟨hzero, hwrites⟩ := hfits (by omega)
      rw [← hsrc, List.take_length] at hwrites
      have hwrite := hwrites.write_eq
      have hsize := hwrites.size_eq
      refine ⟨Prod.ext hzero rfl, ?_, ?_, ?_, ?_⟩
      · refine ⟨?_, ?_, ?_⟩
        · show (b.writeResult src length).2.pRead ≤ (b.writeResult src length).2.pWrite
          rw [hwrites.read_eq, hwrite]
          exact Nat.le_add_right_of_le h.ordered.read_le_write
        · show (b.writeResult src length).2.pWrite ≤ (b.writeResult src length).2.size.toNat
          rw [hwrite, hsize]
          omega
        · show (b.writeResult src length).2.size.toNat ≤ (b.writeResult src length).2.pData.length
          rw [hwrites.mem_eq, hsize]
          exact h.ordered.size_le_mem
      · show t.cap = (b.writeResult src length).2.size.toNat
        rw [hsize, hcap]
      · show t.written ++ src =
          (b.writeResult src length).2.pData.take (b.writeResult src length).2.pWrite
        rw [hwrite, List.take_add, hwrites.below, hwrites.bytes_eq, h.written]
      · exact h.pos.trans hwrites.read_eq.symm
  · next hroom =>
      have hresult := hlong (by omega)
      have hcall : b.call (.write src length) = ((-1, []), b) := by
        rw [DataBuffer.call, DataBuffer.after, DataBuffer.perform, hresult]
        rfl
      rw [hcall]
      exact h.refused

theorem call_read (length : UInt32) :
    SameOutcome (b.call (.read length)) (t.step (.read length.toNat)) := by
  have hlength := h.written_length
  have hpos := h.pos
  have horder := h.ordered.read_le_write
  have hunread := h.ordered.unread_length
  have hread := read_eq h.ordered length
  rw [Tape.step, Tape.read]
  by_cases hfit : b.pRead + length.toNat ≤ b.pWrite
  · rw [if_pos (by omega)] at hread
    have hcall : b.call (.read length) =
        ((0, b.unread.take length.toNat), { b with pRead := b.pRead + length.toNat }) := by
      rw [DataBuffer.call, DataBuffer.after, DataBuffer.perform, DataBuffer.copied, hread]
      rfl
    rw [hcall, dif_pos (by omega), ← h.unread_eq]
    exact ⟨rfl, h.ordered.advance (by omega), h.cap, h.written, congrArg (· + length.toNat) hpos⟩
  · rw [if_neg (by omega)] at hread
    have hcall : b.call (.read length) = ((-1, []), b) := by
      rw [DataBuffer.call, DataBuffer.after, DataBuffer.perform, DataBuffer.copied, hread]
      rfl
    rw [hcall, dif_neg (by omega)]
    exact h.refused

theorem call_moveReadPtr (offset : Int32) :
    SameOutcome (b.call (.moveReadPtr offset)) (t.step (.seek offset.toInt)) := by
  have hlength := h.written_length
  have hpos := h.pos
  have hwrite := h.ordered.write_le_size
  rw [DataBuffer.call, DataBuffer.after, DataBuffer.perform, DataBuffer.moveReadPtr, Tape.step,
    Tape.seek]
  by_cases hin : 0 ≤ (b.pRead : Int) + offset.toInt ∧ (b.pRead : Int) + offset.toInt ≤ b.pWrite
  · rw [if_pos hin, dif_pos (by omega)]
    refine ⟨rfl, ⟨?_, hwrite, h.ordered.size_le_mem⟩, h.cap, h.written, ?_⟩
    · show ((b.pRead : Int) + offset.toInt).toNat ≤ b.pWrite
      omega
    · show ((t.pos : Int) + offset.toInt).toNat = ((b.pRead : Int) + offset.toInt).toNat
      rw [hpos]
  · rw [if_neg hin, dif_neg (by omega)]
    exact h.refused

/-- Backwards, and above the read cursor. -/
theorem call_moveWritePtr {offset : Int32} (hback : offset.toInt ≤ 0)
    (hbehind : KeepsBehind b (.moveWritePtr offset)) :
    SameOutcome (b.call (.moveWritePtr offset)) (t.step (.unwrite (-offset.toInt).toNat)) := by
  have hlength := h.written_length
  have hpos := h.pos
  have hread := h.ordered.read_le_write
  have hwrite := h.ordered.write_le_size
  have hmem := h.ordered.size_le_mem
  rw [KeepsBehind] at hbehind
  rw [DataBuffer.call, DataBuffer.after, DataBuffer.perform, DataBuffer.moveWritePtr, Tape.step,
    Tape.unwrite]
  by_cases hin : 0 ≤ (b.pWrite : Int) + offset.toInt
  · rw [if_pos (by omega), dif_pos (by omega)]
    refine ⟨rfl, ⟨?_, ?_, hmem⟩, h.cap, ?_, hpos⟩
    · show b.pRead ≤ ((b.pWrite : Int) + offset.toInt).toNat
      omega
    · show ((b.pWrite : Int) + offset.toInt).toNat ≤ b.size.toNat
      omega
    · show t.written.take (t.written.length - (-offset.toInt).toNat) =
        b.pData.take ((b.pWrite : Int) + offset.toInt).toNat
      rw [hlength, h.written, List.take_take]
      congr 1
      omega
  · rw [if_neg (by omega), dif_neg (by omega)]
    exact h.refused

theorem call_reset : SameOutcome (b.call .reset) (t.step .clear) :=
  ⟨rfl, ⟨Nat.le_refl _, Nat.zero_le _, h.ordered.size_le_mem⟩, h.cap, rfl, rfl⟩

/-- **One call is one operation on the tape.** -/
theorem call_onTape {op : BufferOp} (hop : TapeCall b op) :
    SameOutcome (b.call op) (t.step op.onTape) := by
  cases op with
  | write src length => exact call_write h hop.1 hop.2
  | read length => exact call_read h length
  | moveReadPtr offset => exact call_moveReadPtr h offset
  | moveWritePtr offset => exact call_moveWritePtr h hop.1 hop.2
  | reset => exact call_reset h

end Calls

/-! ## Any sequence of calls -/

theorem Constructed.ordered {b : DataBuffer} (h : Constructed b) : Ordered b := by
  cases h with
  | ofSize block size hmem => exact ⟨Nat.le_refl _, Nat.zero_le _, hmem⟩
  | ofData data size writedBytes hmem hwrited =>
      exact ⟨Nat.zero_le _, UInt32.le_iff_toNat_le.mp hwrited, hmem⟩

/-- The tape of a buffer. -/
def DataBuffer.tape (b : DataBuffer) (h : Ordered b) : Tape UInt8 where
  cap := b.size.toNat
  written := b.pData.take b.pWrite
  pos := b.pRead
  written_le := (List.length_take_le _ _).trans h.write_le_size
  pos_le := by
    rw [List.length_take, Nat.min_eq_left h.write_le_mem]
    exact h.read_le_write

theorem tape_onTape {b : DataBuffer} (h : Ordered b) : OnTape b (b.tape h) := ⟨h, rfl, rfl, rfl⟩

/-- A run of calls. -/
theorem calls_onTape {b : DataBuffer} {t : Tape UInt8} (h : OnTape b t) (ops : List BufferOp)
    (hops : EachStep DataBuffer.after TapeCall b ops) :
    outputs DataBuffer.call b ops =
        (outputs Tape.step t (ops.map BufferOp.onTape)).map returned ∧
      OnTape (final DataBuffer.call b ops) (final Tape.step t (ops.map BufferOp.onTape)) := by
  have hsim : ∀ b t op, OnTape b t → TapeCall b op →
      (b.call op).1 = returned (t.step op.onTape).1 ∧ OnTape (b.call op).2 (t.step op.onTape).2 :=
    fun _ _ _ hs hop => call_onTape hs hop
  exact simulation hsim ops b t h hops

/-- **A buffer is a tape.**  From either constructor, over any sequence of calls whose writes
have lengths that the bounds test judges rightly, and whose moves of the write cursor go
backwards and not over the read cursor: all return values and all bytes copied out are those
of the tape, and so is what is left to be read. -/
theorem buffer_is_tape (b : DataBuffer) (hb : Constructed b) (ops : List BufferOp)
    (hops : EachStep DataBuffer.after TapeCall b ops) :
    outputs DataBuffer.call b ops =
        (outputs Tape.step (b.tape hb.ordered) (ops.map BufferOp.onTape)).map returned ∧
      (final DataBuffer.call b ops).unread =
        (final Tape.step (b.tape hb.ordered) (ops.map BufferOp.onTape)).unread ∧
      (final DataBuffer.call b ops).getDataSize.toNat =
        (final Tape.step (b.tape hb.ordered) (ops.map BufferOp.onTape)).unread.length := by
  obtain ⟨houtputs, hfinal⟩ := calls_onTape (tape_onTape hb.ordered) ops hops
  have hunread := hfinal.unread_eq
  exact ⟨houtputs, hunread.symm, hunread ▸ hfinal.ordered.getDataSize_toNat⟩

/-- Two bytes, one of them read twice, the other taken back. -/
theorem buffer_is_tape_two :
    outputs DataBuffer.call (.ofSize [0, 0, 0] 3)
      [.write [7, 8] 2, .read 1, .moveReadPtr (-1), .read 1, .moveWritePtr (-1), .read 1] =
      [(0, []), (0, [7]), (0, []), (0, [7]), (0, []), (-1, [])] := by
  have hrun := buffer_is_tape _ (.ofSize [0, 0, 0] 3 (by decide))
    [.write [7, 8] 2, .read 1, .moveReadPtr (-1), .read 1, .moveWritePtr (-1), .read 1]
    (by decide)
  rw [hrun.1]
  decide

theorem stored_eq (op : BufferOp) (out : Bool × List UInt8) :
    stored (op, returned out) = appended (op.onTape, out) := by
  obtain ⟨done, bytes⟩ := out
  cases op with
  | write src length => cases done <;> rfl
  | read length => rfl
  | moveReadPtr offset => rfl
  | moveWritePtr offset => rfl
  | reset => rfl

/-- **First in, first out.**  Over any sequence of such writes and of reads: what was there to
be read, followed by all that was stored, is all that was copied out, followed by what is
there still. -/
theorem buffer_fifo (b : DataBuffer) (hb : Constructed b) (ops : List BufferOp)
    (hops : EachStep DataBuffer.after TapeCall b ops) (hqueue : ∀ op ∈ ops, op.onTape.IsQueue) :
    b.unread ++ (ops.zip (outputs DataBuffer.call b ops)).flatMap stored =
      (outputs DataBuffer.call b ops).flatMap Prod.snd ++
        (final DataBuffer.call b ops).unread := by
  obtain ⟨houtputs, hfinal⟩ := calls_onTape (tape_onTape hb.ordered) ops hops
  have hkinds : ∀ op ∈ ops.map BufferOp.onTape, op.IsQueue := by
    intro op hop
    obtain ⟨call, hcall, rfl⟩ := List.mem_map.mp hop
    exact hqueue call hcall
  have hqueued := fifo (ops.map BufferOp.onTape) hkinds (b.tape hb.ordered)
  rw [(tape_onTape hb.ordered).unread_eq, hfinal.unread_eq, List.zip_map_left,
    List.flatMap_map] at hqueued
  rw [houtputs, List.zip_map_right, List.flatMap_map, List.flatMap_map]
  have hstored : ∀ e : BufferOp × (Bool × List UInt8),
      stored (Prod.map id returned e) = appended (Prod.map BufferOp.onTape id e) :=
    fun e => stored_eq e.1 e.2
  simp only [hstored]
  exact hqueued

/-- A write that does not fit, between two that do. -/
theorem buffer_fifo_three :
    [7, 8, 9] = [7] ++ (final DataBuffer.call (.ofSize [0, 0, 0] 3)
      [.write [7, 8] 2, .write [1, 2] 2, .read 1, .write [9] 1]).unread := by
  exact buffer_fifo _ (.ofSize [0, 0, 0] 3 (by decide))
    [.write [7, 8] 2, .write [1, 2] 2, .read 1, .write [9] 1] (by decide)
    (by simp [BufferOp.onTape, TapeOp.IsQueue])

end MyGenSvr.Ports
