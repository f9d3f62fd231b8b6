import MyGenSvr.Verified.ByteOrder

/-!
# Common definitions

The limits and the scalar types of `CommDef.h`, and the facts about the host a
build fixes: its byte order, the width of `size_t`, and what an uninitialised
local happens to hold.
-/

namespace MyGenSvr.Ports

open MyGenSvr.Verified.ByteOrder

/-- Size of every socket data buffer. -/
def MAXSOCKBUFF : Nat := 65535

/-- Events one `epoll_wait` can return. -/
def MAXEVENTS : Nat := 100

/-- Times a `send` may find the socket busy before `SendMsg` gives up. -/
def MAX_TRYSENDNUM : Nat := 20

/-- The scalar types of `CommDef.h`. -/
inductive Scalar where
  | bool
  | sByte
  | byte
  | int16
  | uInt16
  | int32
  | uInt32
  | int64
  | uInt64
  | single
  | double
  deriving DecidableEq, Repr

/-- `sizeof` of a scalar type. -/
def Scalar.width : Scalar → Nat
  | .bool | .sByte | .byte => 1
  | .int16 | .uInt16 => 2
  | .int32 | .uInt32 | .single => 4
  | .int64 | .uInt64 | .double => 8

/-- Values of a scalar type.  The two floating types are only ever copied, so
they are their bit patterns. -/
@[reducible] def Scalar.Val : Scalar → Type
  | .bool => Bool
  | .sByte => Int8
  | .byte => UInt8
  | .int16 => Int16
  | .uInt16 => UInt16
  | .int32 => Int32
  | .uInt32 => UInt32
  | .int64 => Int64
  | .uInt64 => UInt64
  | .single => UInt32
  | .double => UInt64

instance (k : Scalar) : DecidableEq k.Val := by
  cases k <;> unfold Scalar.Val <;> infer_instance

/-- The bit pattern of a value, as an unsigned number. -/
def Scalar.bits : (k : Scalar) → k.Val → Nat
  | .bool, v => v.toNat
  | .sByte, v => v.toUInt8.toNat
  | .byte, v => v.toNat
  | .int16, v => v.toUInt16.toNat
  | .uInt16, v => v.toNat
  | .int32, v => v.toUInt32.toNat
  | .uInt32, v => v.toNat
  | .int64, v => v.toUInt64.toNat
  | .uInt64, v => v.toNat
  | .single, v => v.toNat
  | .double, v => v.toNat

/-- The value a bit pattern denotes. -/
def Scalar.ofBits : (k : Scalar) → Nat → k.Val
  | .bool, n => decide (n ≠ 0)
  | .sByte, n => (UInt8.ofNat n).toInt8
  | .byte, n => UInt8.ofNat n
  | .int16, n => (UInt16.ofNat n).toInt16
  | .uInt16, n => UInt16.ofNat n
  | .int32, n => (UInt32.ofNat n).toInt32
  | .uInt32, n => UInt32.ofNat n
  | .int64, n => (UInt64.ofNat n).toInt64
  | .uInt64, n => UInt64.ofNat n
  | .single, n => UInt32.ofNat n
  | .double, n => UInt64.ofNat n

theorem Scalar.bits_lt (k : Scalar) (v : k.Val) : k.bits v < 256 ^ k.width := by
  cases k with
  | bool => cases v <;> decide
  | sByte => exact v.toUInt8.toNat_lt
  | byte => exact UInt8.toNat_lt v
  | int16 => exact v.toUInt16.toNat_lt
  | uInt16 => exact UInt16.toNat_lt v
  | int32 => exact v.toUInt32.toNat_lt
  | uInt32 => exact UInt32.toNat_lt v
  | int64 => exact v.toUInt64.toNat_lt
  | uInt64 => exact UInt64.toNat_lt v
  | single => exact UInt32.toNat_lt v
  | double => exact UInt64.toNat_lt v

@[simp] theorem Scalar.ofBits_bits (k : Scalar) (v : k.Val) :
    k.ofBits (k.bits v) = v := by
  cases k with
  | bool => cases v <;> rfl
  | sByte =>
      rw [bits, ofBits, UInt8.ofNat_toNat]
      exact Int8.toInt8_toUInt8 v
  | byte => exact UInt8.ofNat_toNat
  | int16 =>
      rw [bits, ofBits, UInt16.ofNat_toNat]
      exact Int16.toInt16_toUInt16 v
  | uInt16 => exact UInt16.ofNat_toNat
  | int32 =>
      rw [bits, ofBits, UInt32.ofNat_toNat]
      exact Int32.toInt32_toUInt32 v
  | uInt32 => exact UInt32.ofNat_toNat
  | int64 =>
      rw [bits, ofBits, UInt64.ofNat_toNat]
      exact Int64.toInt64_toUInt64 v
  | uInt64 => exact UInt64.ofNat_toNat
  | single => exact UInt32.ofNat_toNat
  | double => exact UInt64.ofNat_toNat

/-- What a build and a machine fix. -/
structure Host where
  /-- Byte order. -/
  endian : Endian
  /-- Width of `size_t` in bits. -/
  sizeBits : Nat
  sizeBits_eq : sizeBits = 32 ∨ sizeBits = 64
  /-- What an uninitialised local of a scalar type holds in a run.  Two runs need not
  agree on it: `Host.withUninit`. -/
  uninit : (k : Scalar) → k.Val

/-- Another run of the same build, with other values in uninitialised locals. -/
def Host.withUninit (h : Host) (u : (k : Scalar) → k.Val) : Host := { h with uninit := u }

/-- A 64-bit `size_t`. -/
def Host.LP64 (h : Host) : Prop := h.sizeBits = 64

/-- A little-endian 64-bit host on which uninitialised locals hold zero. -/
def Host.x86_64 : Host := ⟨.little, 64, Or.inr rfl, fun k => k.ofBits 0⟩

/-- The same with the other byte order. -/
def Host.bigEndian : Host := ⟨.big, 64, Or.inr rfl, fun k => k.ofBits 0⟩

/-- A little-endian host with a 32-bit `size_t`. -/
def Host.i386 : Host := ⟨.little, 32, Or.inl rfl, fun k => k.ofBits 0⟩

theorem Host.x86_64_LP64 : Host.x86_64.LP64 := rfl

/-- `size_t` arithmetic wraps at the host's width. -/
def Host.sizeT (h : Host) (n : Nat) : Nat := n % 2 ^ h.sizeBits

theorem Host.sizeT_of_lt {h : Host} {n : Nat} (hn : n < 2 ^ h.sizeBits) :
    h.sizeT n = n := Nat.mod_eq_of_lt hn

/-! ## Conversion to `int` -/

/-- The conversion of a number to `int`: its low 31 bits, less `2 ^ 31` when
bit 31 is set. -/
def toInt32 (n : Int) : Int :=
  if n / 2 ^ 31 % 2 = 0 then n % 2 ^ 31 else n % 2 ^ 31 - 2 ^ 31

theorem toInt32_of_range {n : Int} (hlow : -2 ^ 31 ≤ n) (hhigh : n < 2 ^ 31) :
    toInt32 n = n := by
  unfold toInt32
  split <;> omega

theorem toInt32_of_lt {n : Nat} (hn : n < 2 ^ 31) : toInt32 n = n :=
  toInt32_of_range (by omega) (by omega)

/-- The conversion to `int` never increases a non-negative number. -/
theorem toInt32_le {n : Int} (hn : 0 ≤ n) : toInt32 n ≤ n := by
  unfold toInt32
  split <;> omega

end MyGenSvr.Ports
