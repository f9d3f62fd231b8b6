import MyGenSvr.Ports.CommDef
import MyGenSvr.Ports.DataBuffer

/-!
# `Serializer`

The streaming operators `<<` (`put`) and `>>` (`get`) on scalars and strings.
Every operator stores the result of its buffer access in `_iError`, replacing
what was there; `codes` is a record of all values ever stored, kept for the
specifications and read by no operator.

The overloads for the integer types differ in width and in whether a 16- or
32-bit conversion is applied, so they are one definition indexed by the scalar
type.  `Bool` goes through an uninitialised local when it is read.

## Main results

* `getScalar_of_unread` — a scalar is read back where its wire image lies.
* `getString_terminated`, `getString_unterminated` — what a string extraction
  does with and without a terminator among the unread bytes.
-/

namespace MyGenSvr.Ports

open MyGenSvr.Verified.ByteOrder
open MyGenSvr.Verified.Buffer

/-- A `Serializer`; `codes` is specification-only. -/
structure Serializer where
  pBuffer : DataBuffer
  iError : Int
  changeByteOrder : Bool
  codes : List Int
  deriving DecidableEq, Repr

/-- The constructor. -/
def Serializer.new (input : DataBuffer) (changeByteOrder : Bool) : Serializer :=
  ⟨input, 0, changeByteOrder, []⟩

/-- `SetDataBuffer`. -/
def Serializer.setDataBuffer (s : Serializer) (input : DataBuffer) : Serializer :=
  { s with pBuffer := input }

/-- The assignment `_iError = code`. -/
def Serializer.setError (s : Serializer) (code : Int) : Serializer :=
  { s with iError := code, codes := s.codes ++ [code] }

/-- An access that moved the buffer on: return value 0. -/
def Serializer.ok (s : Serializer) (b : DataBuffer) : Serializer :=
  { s with pBuffer := b, iError := 0, codes := s.codes ++ [0] }

/-- The types whose operators call `htons`/`htonl`. -/
def Scalar.converted : Scalar → Bool
  | .int16 | .uInt16 | .int32 | .uInt32 => true
  | _ => false

/-- The conversion of an operator: `htons`/`htonl` when it is asked for and
the type has it, and nothing otherwise. -/
def Scalar.convert (h : Host) (changeByteOrder : Bool) (k : Scalar) (n : Nat) :
    Nat :=
  if changeByteOrder && k.converted then h.endian.hton k.width n else n

/-- The bytes a scalar is sent as. -/
def Scalar.wire (h : Host) (changeByteOrder : Bool) (k : Scalar) (v : k.Val) :
    List UInt8 :=
  h.endian.image k.width (k.convert h changeByteOrder (k.bits v))

/-- The value of a variable after an extraction into it failed: `Bool` takes
over an uninitialised local, the others convert what was there. -/
def Scalar.afterFailure (h : Host) (changeByteOrder : Bool) :
    (k : Scalar) → k.Val → k.Val
  | .bool, _ => h.uninit .bool
  | .sByte, v => v
  | .byte, v => v
  | .int16, v => Scalar.int16.ofBits (Scalar.int16.convert h changeByteOrder (Scalar.int16.bits v))
  | .uInt16, v =>
      Scalar.uInt16.ofBits (Scalar.uInt16.convert h changeByteOrder (Scalar.uInt16.bits v))
  | .int32, v => Scalar.int32.ofBits (Scalar.int32.convert h changeByteOrder (Scalar.int32.bits v))
  | .uInt32, v =>
      Scalar.uInt32.ofBits (Scalar.uInt32.convert h changeByteOrder (Scalar.uInt32.bits v))
  | .int64, v => v
  | .uInt64, v => v
  | .single, v => v
  | .double, v => v

/-- `operator<<` on a scalar. -/
def Serializer.putScalar (h : Host) (k : Scalar) (s : Serializer) (value : k.Val) :
    Serializer :=
  match s.pBuffer.write (k.wire h s.changeByteOrder value) (UInt32.ofNat k.width) with
  | some b => s.ok b
  | none => s.setError (-1)

/-- `operator>>` on a scalar. -/
def Serializer.getScalar (h : Host) (k : Scalar) (s : Serializer) (value : k.Val) :
    Serializer × k.Val :=
  match s.pBuffer.read (UInt32.ofNat k.width) with
  | some (bytes, b) =>
      (s.ok b, k.ofBits (k.convert h s.changeByteOrder (h.endian.value bytes)))
  | none => (s.setError (-1), k.afterFailure h s.changeByteOrder value)

/-- `operator<<` on a string: the characters and the terminator of `c_str()`. -/
def Serializer.putString (s : Serializer) (value : List UInt8) : Serializer :=
  match s.pBuffer.write (value ++ [0]) (UInt32.ofNat (value.length + 1)) with
  | some b => s.ok b
  | none => s.setError (-1)

/-- `operator>>` on a string. -/
def Serializer.getString (s : Serializer) (value : List UInt8) :
    Serializer × List UInt8 :=
  let lenToRead := toInt32 (strlen s.pBuffer.getReadPtr)
  if lenToRead > 0 then
    if lenToRead > s.pBuffer.getDataSize.toNat then (s.setError (-1), value)
    else
      -- the string is assigned before the terminator is known to be there
      let assigned := s.pBuffer.getReadPtr.take lenToRead.toNat
      match s.pBuffer.moveReadPtr (toInt32 (lenToRead + 1)) with
      | some b => (s.ok b, assigned)
      | none => (s.setError (-1), assigned)
  else
    -- neither the cursor nor the error code is touched
    (s, [])

@[simp] theorem setError_iError (s : Serializer) (c : Int) :
    (s.setError c).iError = c := rfl

@[simp] theorem setError_pBuffer (s : Serializer) (c : Int) :
    (s.setError c).pBuffer = s.pBuffer := rfl

@[simp] theorem setError_changeByteOrder (s : Serializer) (c : Int) :
    (s.setError c).changeByteOrder = s.changeByteOrder := rfl

@[simp] theorem setError_codes (s : Serializer) (c : Int) :
    (s.setError c).codes = s.codes ++ [c] := rfl

@[simp] theorem ok_iError (s : Serializer) (b : DataBuffer) : (s.ok b).iError = 0 := rfl

@[simp] theorem ok_pBuffer (s : Serializer) (b : DataBuffer) : (s.ok b).pBuffer = b := rfl

@[simp] theorem ok_changeByteOrder (s : Serializer) (b : DataBuffer) :
    (s.ok b).changeByteOrder = s.changeByteOrder := rfl

@[simp] theorem ok_codes (s : Serializer) (b : DataBuffer) :
    (s.ok b).codes = s.codes ++ [0] := rfl

/-! ## The result of a buffer access -/

/-- What an operator makes of its buffer access: the result is the error code,
and after a success the buffer has moved on. -/
def Serializer.settle (s : Serializer) (access : Option DataBuffer) : Serializer :=
  match access with
  | some b => s.ok b
  | none => s.setError (-1)

@[simp] theorem settle_changeByteOrder (s : Serializer) (access : Option DataBuffer) :
    (s.settle access).changeByteOrder = s.changeByteOrder := by
  cases access <;> rfl

theorem putScalar_settle (h : Host) (k : Scalar) (s : Serializer) (value : k.Val) :
    s.putScalar h k value =
      s.settle (s.pBuffer.write (k.wire h s.changeByteOrder value)
        (UInt32.ofNat k.width)) := rfl

theorem putString_settle (s : Serializer) (value : List UInt8) :
    s.putString value =
      s.settle (s.pBuffer.write (value ++ [0]) (UInt32.ofNat (value.length + 1))) := rfl

/-- The move of the cursor that an extraction of a scalar is. -/
def DataBuffer.skipScalar (b : DataBuffer) (k : Scalar) : Option DataBuffer :=
  (b.read (UInt32.ofNat k.width)).map Prod.snd

/-- The `lenToRead` of a string extraction. -/
def DataBuffer.lenToRead (b : DataBuffer) : Int := toInt32 (strlen b.getReadPtr)

/-- The move of the cursor over a string of positive length. -/
def DataBuffer.skipString (b : DataBuffer) : Option DataBuffer :=
  if b.lenToRead > b.getDataSize.toNat then none
  else b.moveReadPtr (toInt32 (b.lenToRead + 1))

theorem getScalar_settle (h : Host) (k : Scalar) (s : Serializer) (value : k.Val) :
    (s.getScalar h k value).1 = s.settle (s.pBuffer.skipScalar k) := by
  unfold Serializer.getScalar DataBuffer.skipScalar
  cases s.pBuffer.read (UInt32.ofNat k.width) <;> rfl

theorem getString_settle {s : Serializer} (hpos : s.pBuffer.lenToRead > 0)
    (value : List UInt8) :
    (s.getString value).1 = s.settle s.pBuffer.skipString := by
  by_cases hover : s.pBuffer.lenToRead > s.pBuffer.getDataSize.toNat
  · have haccess : s.pBuffer.skipString = none := if_pos hover
    rw [haccess]
    unfold DataBuffer.lenToRead at hpos hover
    simp only [Serializer.getString, if_pos hpos, if_pos hover]
    rfl
  · have haccess : s.pBuffer.skipString =
        s.pBuffer.moveReadPtr (toInt32 (s.pBuffer.lenToRead + 1)) := if_neg hover
    rw [haccess]
    unfold DataBuffer.lenToRead at hpos hover ⊢
    simp only [Serializer.getString, if_pos hpos, if_neg hover]
    cases s.pBuffer.moveReadPtr (toInt32 (toInt32 (strlen s.pBuffer.getReadPtr) + 1)) <;>
      rfl

/-- A length within the data is assigned, whatever becomes of the cursor. -/
theorem getString_assigned {s : Serializer} (hpos : s.pBuffer.lenToRead > 0)
    (hle : s.pBuffer.lenToRead ≤ s.pBuffer.getDataSize.toNat) (value : List UInt8) :
    (s.getString value).2 = s.pBuffer.getReadPtr.take s.pBuffer.lenToRead.toNat := by
  unfold DataBuffer.lenToRead at hpos hle ⊢
  simp only [Serializer.getString, if_pos hpos, if_neg (not_lt.mpr hle)]
  split <;> rfl

/-- Every error code recorded so far is 0. -/
def Serializer.Clean (s : Serializer) : Prop := ∀ e ∈ s.codes, e = 0

instance (s : Serializer) : Decidable s.Clean :=
  inferInstanceAs (Decidable (∀ e ∈ s.codes, e = 0))

theorem clean_ok {s : Serializer} (b : DataBuffer) : (s.ok b).Clean ↔ s.Clean := by
  constructor
  · intro hs e he
    exact hs e (List.mem_append_left _ he)
  · intro hs e he
    rcases List.mem_append.mp he with hold | hnew
    · exact hs e hold
    · exact List.mem_singleton.mp hnew

theorem not_clean_setError (s : Serializer) : ¬ (s.setError (-1)).Clean := by
  intro hs
  have hlast := hs (-1) (List.mem_append_right _ (List.mem_singleton.mpr rfl))
  exact absurd hlast (by decide)

/-- No extraction changes the byte-order mode. -/
@[simp] theorem getScalar_changeByteOrder (h : Host) (k : Scalar) (s : Serializer)
    (value : k.Val) : (s.getScalar h k value).1.changeByteOrder = s.changeByteOrder := by
  unfold Serializer.getScalar
  split <;> rfl

@[simp] theorem getString_changeByteOrder (s : Serializer) (value : List UInt8) :
    (s.getString value).1.changeByteOrder = s.changeByteOrder := by
  simp only [Serializer.getString]
  split
  · split
    · rfl
    · split <;> rfl
  · rfl

/-! ## Scalars on the wire -/

theorem width_toNat (k : Scalar) : (UInt32.ofNat k.width).toNat = k.width := by
  cases k <;> rfl

@[simp] theorem wire_length (h : Host) (c : Bool) (k : Scalar) (v : k.Val) :
    (k.wire h c v).length = k.width :=
  h.endian.image_length k.width _

theorem convert_lt (h : Host) (c : Bool) (k : Scalar) {n : Nat}
    (hn : n < 256 ^ k.width) : k.convert h c n < 256 ^ k.width := by
  unfold Scalar.convert
  split
  · exact h.endian.hton_lt hn
  · exact hn

theorem convert_convert (h : Host) (c : Bool) (k : Scalar) {n : Nat}
    (hn : n < 256 ^ k.width) : k.convert h c (k.convert h c n) = n := by
  by_cases hc : (c && k.converted) = true
  · simp only [Scalar.convert, hc, if_true]
    exact h.endian.hton_hton hn
  · simp only [Scalar.convert, hc, Bool.false_eq_true, if_false]

/-- Decoding the wire image of a scalar gives the scalar back. -/
theorem ofBits_wire (h : Host) (c : Bool) (k : Scalar) (v : k.Val) :
    k.ofBits (k.convert h c (h.endian.value (k.wire h c v))) = v := by
  have hbits := k.bits_lt v
  rw [Scalar.wire, h.endian.value_image_of_lt (convert_lt h c k hbits),
    convert_convert h c k hbits, Scalar.ofBits_bits]

/-! ## Extraction from the unread bytes -/

section Extraction

variable {s : Serializer}

/-- **A scalar is read off the front of the unread bytes.** -/
theorem getScalar_of_le (h : Host) (k : Scalar) (ho : Ordered s.pBuffer)
    (value : k.Val) (hlen : k.width ≤ s.pBuffer.unread.length) :
    s.getScalar h k value =
      (s.ok { s.pBuffer with pRead := s.pBuffer.pRead + k.width },
        k.ofBits (k.convert h s.changeByteOrder
          (h.endian.value (s.pBuffer.unread.take k.width)))) := by
  rw [Serializer.getScalar, read_eq ho, width_toNat, if_pos hlen]

/-- Too few unread bytes: the error code is set and the cursor stays. -/
theorem getScalar_of_lt (h : Host) (k : Scalar) (ho : Ordered s.pBuffer)
    (value : k.Val) (hlen : s.pBuffer.unread.length < k.width) :
    s.getScalar h k value =
      (s.setError (-1), k.afterFailure h s.changeByteOrder value) := by
  rw [Serializer.getScalar, read_eq ho, width_toNat, if_neg (Nat.not_le.mpr hlen)]

/-- A scalar extraction moves the cursor by its width or not at all, and writes
nothing. -/
theorem getScalar_frame (h : Host) (k : Scalar) (s : Serializer) (value : k.Val) :
    (s.getScalar h k value).1.pBuffer.pData = s.pBuffer.pData ∧
      (s.getScalar h k value).1.pBuffer.pRead ≤ s.pBuffer.pRead + k.width := by
  unfold Serializer.getScalar DataBuffer.read
  by_cases htest : s.pBuffer.pRead + (UInt32.ofNat k.width).toNat > s.pBuffer.pWrite
  · rw [if_pos htest]
    exact ⟨rfl, Nat.le_add_right _ _⟩
  · rw [if_neg htest]
    exact ⟨rfl, by simp only [ok_pBuffer, width_toNat, Nat.le_refl]⟩

/-- A scalar read where its wire image lies. -/
theorem getScalar_of_unread (h : Host) (k : Scalar) (ho : Ordered s.pBuffer)
    (value v : k.Val) (rest : List UInt8)
    (hun : s.pBuffer.unread = k.wire h s.changeByteOrder v ++ rest) :
    s.getScalar h k value =
      (s.ok { s.pBuffer with pRead := s.pBuffer.pRead + k.width }, v) := by
  have htake : s.pBuffer.unread.take k.width = k.wire h s.changeByteOrder v := by
    have hleft : (k.wire h s.changeByteOrder v ++ rest).take
        (k.wire h s.changeByteOrder v).length = k.wire h s.changeByteOrder v :=
      List.take_left
    rw [wire_length] at hleft
    rw [hun, hleft]
  have hlen : k.width ≤ s.pBuffer.unread.length := by
    rw [hun, List.length_append, wire_length]
    omega
  rw [getScalar_of_le h k ho value hlen, htake, ofBits_wire]

/-- A string extraction never writes to the buffer. -/
theorem getString_pData (s : Serializer) (value : List UInt8) :
    (s.getString value).1.pBuffer.pData = s.pBuffer.pData := by
  simp only [Serializer.getString]
  split
  · split
    · rfl
    · split
      · next b hb => exact (moveReadPtr_some hb).1
      · rfl
  · rfl

/-- A string extraction never moves beyond the byte its scan stopped at. -/
theorem getString_pRead_le (s : Serializer) (value : List UInt8) :
    (s.getString value).1.pBuffer.pRead ≤
      s.pBuffer.pRead + strlen s.pBuffer.getReadPtr + 1 := by
  simp only [Serializer.getString]
  split
  · next hpos =>
      split
      · simp only [setError_pBuffer]
        omega
      · split
        · next b hb =>
            have hmove := (moveReadPtr_some hb).2
            have hlen := toInt32_le (Int.natCast_nonneg (strlen s.pBuffer.getReadPtr))
            have hnext := @toInt32_le (toInt32 (strlen s.pBuffer.getReadPtr) + 1)
              (by omega)
            simp only [ok_pBuffer]
            omega
        · simp only [setError_pBuffer]
          omega
  · simp only
    omega

/-- Extractions keep the cursors in order. -/
theorem getScalar_ordered (h : Host) (k : Scalar) (ho : Ordered s.pBuffer) (value : k.Val) :
    Ordered (s.getScalar h k value).1.pBuffer := by
  unfold Serializer.getScalar
  cases hread : s.pBuffer.read (UInt32.ofNat k.width) with
  | none => exact ho
  | some r => exact read_ordered ho hread

theorem getString_ordered (ho : Ordered s.pBuffer) (value : List UInt8) :
    Ordered (s.getString value).1.pBuffer := by
  simp only [Serializer.getString]
  split
  · split
    · exact ho
    · split
      · next b hb => exact moveReadPtr_ordered ho hb
      · exact ho
  · exact ho

/-- **A terminated string is read up to and over its terminator.** -/
theorem getString_terminated (ho : Ordered s.pBuffer) (value str rest : List UInt8)
    (hstr : (0 : UInt8) ∉ str) (hne : str ≠ []) (hlen : str.length + 1 < 2 ^ 31)
    (hun : s.pBuffer.unread = str ++ 0 :: rest) :
    s.getString value =
      (s.ok { s.pBuffer with pRead := s.pBuffer.pRead + (str.length + 1) }, str) := by
  have hptr : s.pBuffer.getReadPtr = str ++ 0 :: (rest ++ s.pBuffer.beyond) := by
    rw [ho.getReadPtr_eq, hun, List.append_assoc, List.cons_append]
  have hscan : strlen s.pBuffer.getReadPtr = str.length := by
    rw [hptr, strlen_append_zero hstr]
  have hpos : 0 < str.length := List.length_pos_iff.mpr hne
  have hunread : str.length + 1 ≤ s.pBuffer.unread.length := by
    rw [hun, List.length_append, List.length_cons]
    omega
  have hassigned : s.pBuffer.getReadPtr.take str.length = str := by
    rw [hptr, List.take_left]
  have hmove : s.pBuffer.moveReadPtr (toInt32 ((str.length : Int) + 1)) =
      some { s.pBuffer with pRead := s.pBuffer.pRead + (str.length + 1) } := by
    have hcast : toInt32 ((str.length : Int) + 1) = ((str.length + 1 : Nat) : Int) :=
      toInt32_of_lt hlen
    rw [hcast, moveReadPtr_eq ho, if_pos hunread]
  have hfits : ¬ ((str.length : Int) > s.pBuffer.getDataSize.toNat) := by
    rw [ho.getDataSize_toNat]
    omega
  have hint : toInt32 (str.length : Int) = str.length := toInt32_of_lt (by omega)
  simp only [Serializer.getString, hscan, hint, Int.toNat_natCast, hassigned, hmove]
  rw [if_pos (by omega), if_neg hfits]

/-- **Without a terminator among the unread bytes** the extraction fails, as
long as the scan beyond them comes back with an `int`. -/
theorem getString_unterminated (ho : Ordered s.pBuffer) (value : List UInt8)
    (hnul : (0 : UInt8) ∉ s.pBuffer.unread)
    (hpos : 0 < strlen s.pBuffer.getReadPtr)
    (hscan : strlen s.pBuffer.getReadPtr < 2 ^ 31)
    (hlen : s.pBuffer.unread.length + 1 < 2 ^ 31) :
    (s.getString value).1 = s.setError (-1) := by
  have hge : s.pBuffer.unread.length ≤ strlen s.pBuffer.getReadPtr := by
    rw [ho.getReadPtr_eq, strlen_append, if_neg hnul]
    exact Nat.le_add_right _ _
  have hint : toInt32 (strlen s.pBuffer.getReadPtr : Int) =
      strlen s.pBuffer.getReadPtr := toInt32_of_lt hscan
  simp only [Serializer.getString, hint]
  rw [if_pos (by omega)]
  by_cases hover : (strlen s.pBuffer.getReadPtr : Int) > s.pBuffer.getDataSize.toNat
  · rw [if_pos hover]
  · rw [if_neg hover]
    rw [ho.getDataSize_toNat] at hover
    have hend : strlen s.pBuffer.getReadPtr = s.pBuffer.unread.length := by omega
    have hcast : toInt32 ((strlen s.pBuffer.getReadPtr : Int) + 1) =
        ((s.pBuffer.unread.length + 1 : Nat) : Int) := by
      rw [hend]
      exact toInt32_of_lt hlen
    have hmove : s.pBuffer.moveReadPtr (toInt32 ((strlen s.pBuffer.getReadPtr : Int) + 1)) =
        none := by
      rw [hcast, moveReadPtr_eq ho, if_neg (by omega)]
    rw [hmove]

/-- A length that comes back as no positive `int` leaves the cursor and the
error code alone. -/
theorem getString_nonpos (value : List UInt8)
    (hscan : toInt32 (strlen s.pBuffer.getReadPtr) ≤ 0) : s.getString value = (s, []) := by
  unfold Serializer.getString
  rw [if_neg (by omega)]

end Extraction

end MyGenSvr.Ports
