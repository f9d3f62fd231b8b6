import MyGenSvr.Verified.BitField

/-!
# Connection ids

`CONNECTION_ID` puts an address, a port and a descriptor into one `long long`, and
three macros of `System.h` take them out again.  The encoder masks the port to 16
bits but ORs the descriptor in as it is, over the port's place; the decoder of the
descriptor keeps 16 bits.

`CONNECTION_ID_fields` gives the three fields an id really has.  A shift of a
negative `long long` is the two's complement one, as the compiler defines it.

## Main results

* `Connection.roundTrips_iff`: a triple comes back exactly when its descriptor has
  16 bits.
* `Connection.id_shared`: any other triple shares its id with one that comes back.
-/

namespace MyGenSvr.Ports

open MyGenSvr.Verified.BitField

/-- `CONNECTION_ID`. -/
def CONNECTION_ID (ip : Int32) (port : UInt16) (fd : Int32) : Int64 :=
  let pf : Int64 := (0x0000ffff &&& port.toUInt32.toInt32).toInt64
  let pf := (pf <<< 16) ||| fd.toInt64
  let tmp := ip.toInt64
  (tmp <<< 32) ||| pf

/-- `CONNECTION_FD`. -/
def CONNECTION_FD (x : Int64) : Int32 := (x &&& 0xFFFF).toInt32

/-- `CONNECTION_IP`: the macro has no cast, so its value is a `long long`. -/
def CONNECTION_IP (x : Int64) : Int64 := x >>> 32

/-- `CONNECTION_PORT`. -/
def CONNECTION_PORT (x : Int64) : Int32 := ((x >>> 16) &&& 0xFFFF).toInt32

/-- What an id is made of: the descriptor is one that `accept` can return. -/
structure Connection where
  ip : Int32
  port : UInt16
  fd : Int32
  fd_nonneg : 0 ≤ fd
  deriving DecidableEq

/-- The id of a connection. -/
def Connection.id (c : Connection) : Int64 := CONNECTION_ID c.ip c.port c.fd

/-- The three macros give back what went into the id. -/
def Connection.RoundTrips (c : Connection) : Prop :=
  CONNECTION_IP c.id = c.ip.toInt64 ∧ CONNECTION_PORT c.id = c.port.toUInt32.toInt32 ∧
    CONNECTION_FD c.id = c.fd

instance (c : Connection) : Decidable c.RoundTrips :=
  inferInstanceAs (Decidable (_ ∧ _ ∧ _))

/-! ## The fields of an id -/

/-- The bits of a descriptor that fall on the port. -/
def highPart (fd : Int32) : BitVec 16 := fd.toBitVec.extractLsb' 16 16

/-- The bits of a descriptor that have a place of their own. -/
def lowPart (fd : Int32) : BitVec 16 := fd.toBitVec.setWidth 16

theorem parts_append (fd : Int32) : highPart fd ++ lowPart fd = fd.toBitVec :=
  extract_append_setWidth (m := 16) (n := 16) fd.toBitVec

theorem msb_of_nonneg {fd : Int32} (hfd : 0 ≤ fd) : fd.toBitVec.msb = false := by
  rw [BitVec.msb_eq_toInt, Int32.toInt_toBitVec]
  rw [Int32.le_iff_toInt_le, Int32.toInt_zero] at hfd
  simpa using hfd

/-- A port masked to 16 bits is the port. -/
theorem masked_port (port : UInt16) :
    (0x0000ffff &&& port.toUInt32.toInt32).toBitVec = port.toBitVec.setWidth 32 := by
  have hcomm : (0x0000ffff &&& port.toUInt32.toInt32).toBitVec =
      port.toBitVec.setWidth 32 &&& BitVec.ofNat 32 (2 ^ 16 - 1) := by
    rw [Int32.toBitVec_and, BitVec.and_comm]
    rfl
  have hback : (port.toBitVec.setWidth 32).setWidth 16 = port.toBitVec := by
    rw [BitVec.setWidth_setWidth (by decide), BitVec.setWidth_eq]
  rw [hcomm, and_lowMask, hback]

theorem shift16 (x : Int64) : (x <<< 16).toBitVec = x.toBitVec <<< 16 := by
  rw [Int64.toBitVec_shiftLeft]
  rfl

theorem shift32 (x : Int64) : (x <<< 32).toBitVec = x.toBitVec <<< 32 := by
  rw [Int64.toBitVec_shiftLeft]
  rfl

/-- **The fields of an id**: the high part of the descriptor lands on the port. -/
theorem CONNECTION_ID_fields (ip : Int32) (port : UInt16) {fd : Int32} (hfd : 0 ≤ fd) :
    (CONNECTION_ID ip port fd).toBitVec =
      ip.toBitVec ++ ((port.toBitVec ||| highPart fd) ++ lowPart fd) := by
  have hmsb : (port.toBitVec.setWidth 32).msb = false := by
    rw [BitVec.msb_setWidth]
    exact BitVec.getLsbD_of_ge _ _ (by decide)
  have hjoin : (port.toBitVec ||| highPart fd) ++ lowPart fd =
      (port.toBitVec ++ 0#16) ||| fd.toBitVec := by
    rw [← parts_append fd, BitVec.or_append, BitVec.zero_or]
  have hpf : (((0x0000ffff &&& port.toUInt32.toInt32).toInt64 <<< 16) ||| fd.toInt64).toBitVec =
      ((port.toBitVec ||| highPart fd) ++ lowPart fd).setWidth 64 := by
    rw [Int64.toBitVec_or, shift16, Int32.toBitVec_toInt64, Int32.toBitVec_toInt64,
      masked_port, BitVec.signExtend_eq_setWidth_of_msb_false hmsb,
      BitVec.signExtend_eq_setWidth_of_msb_false (msb_of_nonneg hfd),
      BitVec.setWidth_setWidth (by decide)]
    rw [hjoin, BitVec.setWidth_or, BitVec.setWidth_append_eq_shiftLeft_setWidth_or,
      BitVec.setWidth_zero, BitVec.or_zero]
  have hid := shiftLeft_signExtend_or (m := 32) (n := 32) ip.toBitVec
    ((port.toBitVec ||| highPart fd) ++ lowPart fd)
  have hunfold : (CONNECTION_ID ip port fd).toBitVec =
      (ip.toInt64 <<< 32).toBitVec |||
        (((0x0000ffff &&& port.toUInt32.toInt32).toInt64 <<< 16) ||| fd.toInt64).toBitVec :=
    Int64.toBitVec_or _ _
  rw [hunfold, hpf, shift32, Int32.toBitVec_toInt64]
  exact hid

/-! ## What the macros give back -/

theorem CONNECTION_FD_toBitVec (x : Int64) :
    (CONNECTION_FD x).toBitVec = (x.toBitVec.setWidth 16).setWidth 32 := by
  have hmask : (x &&& 0xFFFF).toBitVec = (x.toBitVec.setWidth 16).setWidth 64 :=
    and_lowMask x.toBitVec 16
  rw [CONNECTION_FD, Int64.toBitVec_toInt32, hmask,
    BitVec.signExtend_eq_setWidth_of_le _ (by decide), BitVec.setWidth_setWidth (by decide)]

theorem CONNECTION_PORT_toBitVec (x : Int64) :
    (CONNECTION_PORT x).toBitVec = (x.toBitVec.extractLsb' 16 16).setWidth 32 := by
  have hshift : (x >>> 16).toBitVec = x.toBitVec.sshiftRight 16 :=
    Int64.toBitVec_shiftRight x 16
  have hfield := CONNECTION_FD_toBitVec (x >>> 16)
  rw [hshift, setWidth_sshiftRight x.toBitVec (by decide)] at hfield
  exact hfield

theorem CONNECTION_IP_toBitVec (x : Int64) :
    (CONNECTION_IP x).toBitVec = x.toBitVec.sshiftRight 32 := Int64.toBitVec_shiftRight x 32

namespace Connection

variable (c d : Connection)

theorem id_toBitVec :
    c.id.toBitVec =
      c.ip.toBitVec ++ ((c.port.toBitVec ||| highPart c.fd) ++ lowPart c.fd) :=
  CONNECTION_ID_fields c.ip c.port c.fd_nonneg

/-- The address always comes back. -/
theorem CONNECTION_IP_id : CONNECTION_IP c.id = c.ip.toInt64 := by
  apply Int64.toBitVec_inj.mp
  rw [CONNECTION_IP_toBitVec, id_toBitVec, Int32.toBitVec_toInt64]
  exact sshiftRight_append (m := 32) (n := 32) (by decide) c.ip.toBitVec _

/-- The port comes back with the high part of the descriptor in it. -/
theorem CONNECTION_PORT_id :
    (CONNECTION_PORT c.id).toBitVec = (c.port.toBitVec ||| highPart c.fd).setWidth 32 := by
  rw [CONNECTION_PORT_toBitVec, id_toBitVec,
    BitVec.extractLsb'_append_eq_of_add_le (by decide), BitVec.extractLsb'_append_eq_left]

/-- The descriptor comes back cut to its low part. -/
theorem CONNECTION_FD_id : (CONNECTION_FD c.id).toBitVec = (lowPart c.fd).setWidth 32 := by
  rw [CONNECTION_FD_toBitVec, id_toBitVec, BitVec.setWidth_append, dif_pos (by decide),
    BitVec.setWidth_append_eq_right]

/-! ## Exactly the descriptors of 16 bits come back -/

variable {c d}

theorem fd_toNat : (c.fd.toBitVec.toNat : Int) = c.fd.toInt := by
  rw [← Int32.toInt_toBitVec, BitVec.toInt_eq_toNat_of_msb (msb_of_nonneg c.fd_nonneg)]

theorem highPart_eq_zero_iff : highPart c.fd = 0 ↔ c.fd < 65536 := by
  have hlt := c.fd.toBitVec.isLt
  have hfd := c.fd_toNat
  have hbound : (65536 : Int32).toInt = 65536 := by decide
  have hhigh : (highPart c.fd).toNat = c.fd.toBitVec.toNat / 65536 % 65536 := by
    rw [highPart, BitVec.extractLsb'_toNat, Nat.shiftRight_eq_div_pow]
  rw [Int32.lt_iff_toInt_lt, hbound, ← hfd, ← BitVec.toNat_inj, hhigh]
  simp only [BitVec.ofNat_eq_ofNat, BitVec.toNat_ofNat]
  omega

/-- The descriptor is its low part exactly when nothing of it falls on the port. -/
theorem lowPart_eq_iff : (lowPart c.fd).setWidth 32 = c.fd.toBitVec ↔ c.fd < 65536 := by
  have hwiden : (lowPart c.fd).setWidth 32 = 0#16 ++ lowPart c.fd :=
    BitVec.setWidth_eq_append (by decide)
  rw [hwiden, ← parts_append c.fd, ← highPart_eq_zero_iff]
  rw [BitVec.append_left_inj]
  exact eq_comm

theorem roundTrips_iff : c.RoundTrips ↔ c.fd < 65536 := by
  have hport : (CONNECTION_PORT c.id = c.port.toUInt32.toInt32) ↔
      (c.port.toBitVec ||| highPart c.fd).setWidth 32 = c.port.toBitVec.setWidth 32 := by
    rw [← Int32.toBitVec_inj, CONNECTION_PORT_id]
    rfl
  have hfd : (CONNECTION_FD c.id = c.fd) ↔ c.fd < 65536 := by
    rw [← Int32.toBitVec_inj, CONNECTION_FD_id, lowPart_eq_iff]
  rw [RoundTrips, hport, hfd]
  constructor
  · intro h
    exact h.2.2
  · intro h
    have hhigh := highPart_eq_zero_iff.mpr h
    refine ⟨c.CONNECTION_IP_id, ?_, h⟩
    rw [hhigh, BitVec.ofNat_eq_ofNat, BitVec.or_zero]

/-- Triples that come back are told apart by their ids. -/
theorem RoundTrips.eq_of_id_eq (hc : c.RoundTrips) (hd : d.RoundTrips) (h : c.id = d.id) :
    c = d := by
  obtain ⟨hip, hport, hfd⟩ := hc
  obtain ⟨hip', hport', hfd'⟩ := hd
  rw [h] at hip hport hfd
  have hsameIp : c.ip = d.ip := by
    have hwide := hip.symm.trans hip'
    rw [← Int32.toInt32_toInt64 c.ip, hwide, Int32.toInt32_toInt64]
  have hsamePort : c.port = d.port := by
    have hwide := congrArg Int32.toUInt32 (hport.symm.trans hport')
    rw [UInt32.toUInt32_toInt32, UInt32.toUInt32_toInt32] at hwide
    exact UInt16.toUInt32_inj.mp hwide
  have hsameFd : c.fd = d.fd := hfd.symm.trans hfd'
  cases c
  cases d
  simp only [mk.injEq]
  exact ⟨hsameIp, hsamePort, hsameFd⟩

/-- A descriptor that does not fit makes the id that of another connection. -/
theorem id_shared (h : ¬c.fd < 65536) : ∃ d : Connection, d ≠ c ∧ d.RoundTrips ∧ d.id = c.id := by
  let fd : Int32 := Int32.ofBitVec (0#16 ++ lowPart c.fd)
  have hhigh : highPart fd = 0 := BitVec.extractLsb'_append_eq_left
  have hlow : lowPart fd = lowPart c.fd := BitVec.setWidth_append_eq_right
  have hnonneg : 0 ≤ fd := by
    have hmsb : (0#16 ++ lowPart c.fd).msb = false := by
      rw [BitVec.msb_append]
      rfl
    rw [Int32.le_iff_toInt_le, Int32.toInt_zero]
    exact BitVec.toInt_nonneg_of_msb_false hmsb
  let d : Connection := ⟨c.ip, ⟨c.port.toBitVec ||| highPart c.fd⟩, fd, hnonneg⟩
  have hfits : d.fd < 65536 := highPart_eq_zero_iff.mp hhigh
  have hid : d.id = c.id := by
    apply Int64.toBitVec_inj.mp
    have hfields : d.id.toBitVec =
        c.ip.toBitVec ++ (((c.port.toBitVec ||| highPart c.fd) ||| highPart fd) ++ lowPart fd) :=
      d.id_toBitVec
    rw [hfields, hhigh, hlow, id_toBitVec, BitVec.ofNat_eq_ofNat, BitVec.or_zero]
  refine ⟨d, ?_, roundTrips_iff.mpr hfits, hid⟩
  intro hsame
  exact h (hsame ▸ hfits)

/-- **What an id tells.**  Two connections come back from their ids, which tell them
apart, exactly when both descriptors have 16 bits. -/
theorem faithful_iff (c d : Connection) :
    (c.RoundTrips ∧ d.RoundTrips ∧ (c ≠ d → c.id ≠ d.id)) ↔ c.fd < 65536 ∧ d.fd < 65536 := by
  constructor
  · intro h
    exact ⟨roundTrips_iff.mp h.1, roundTrips_iff.mp h.2.1⟩
  · intro h
    have hc := roundTrips_iff.mpr h.1
    have hd := roundTrips_iff.mpr h.2
    exact ⟨hc, hd, fun hne hid => hne (hc.eq_of_id_eq hd hid)⟩

/-- Descriptor 65536 on port 0 and descriptor 0 on port 1 have one id, and neither
the port nor the descriptor of the first comes back. -/
theorem faithful_fails :
    let c : Connection := ⟨1, 0, 65536, by decide⟩
    let d : Connection := ⟨1, 1, 0, by decide⟩
    ¬c.RoundTrips ∧ c ≠ d ∧ c.id = d.id := by
  decide

end Connection

end MyGenSvr.Ports
