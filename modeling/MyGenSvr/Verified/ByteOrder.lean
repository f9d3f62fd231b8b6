import Mathlib

/-!
# Byte order of fixed-width words

A machine word of `w` bytes is a natural number below `256 ^ w`.  Its memory
image depends on the endianness of the host, and `htonl`/`ntohl` are the
swap on a little-endian host and the identity on a big-endian one.  The
two facts every wire format rests on are `image_hton` (what is stored after
a host-to-network conversion is the big-endian image on either host) and
`hton_value` (the converse for loading).

Nothing here mentions a particular word size or program.
-/

namespace MyGenSvr.Verified.ByteOrder

/-! ## Little- and big-endian digits -/

/-- The `w` low base-256 digits of `n`, least significant first. -/
def leBytes : Nat → Nat → List UInt8
  | 0, _ => []
  | w + 1, n => UInt8.ofNat n :: leBytes w (n / 256)

/-- The number a digit list denotes, least significant digit first. -/
def ofLeBytes : List UInt8 → Nat
  | [] => 0
  | b :: bs => b.toNat + 256 * ofLeBytes bs

/-- The same digits, most significant first. -/
def beBytes (w n : Nat) : List UInt8 := (leBytes w n).reverse

/-- The number a digit list denotes, most significant digit first. -/
def ofBeBytes (bs : List UInt8) : Nat := ofLeBytes bs.reverse

@[simp] theorem leBytes_length (w n : Nat) : (leBytes w n).length = w := by
  induction w generalizing n with
  | zero => rfl
  | succ w ih => simp [leBytes, ih]

@[simp] theorem beBytes_length (w n : Nat) : (beBytes w n).length = w := by
  simp [beBytes]

theorem ofLeBytes_lt (bs : List UInt8) : ofLeBytes bs < 256 ^ bs.length := by
  induction bs with
  | nil => simp [ofLeBytes]
  | cons b bs ih =>
      have hb : b.toNat < 256 := b.toNat_lt
      simp only [ofLeBytes, List.length_cons, Nat.pow_succ]
      omega

theorem ofBeBytes_lt (bs : List UInt8) : ofBeBytes bs < 256 ^ bs.length := by
  have h := ofLeBytes_lt bs.reverse
  rwa [List.length_reverse] at h

/-- Writing `w` digits keeps exactly the value modulo `256 ^ w`. -/
theorem ofLeBytes_leBytes (w n : Nat) :
    ofLeBytes (leBytes w n) = n % 256 ^ w := by
  induction w generalizing n with
  | zero => simp [leBytes, ofLeBytes, Nat.mod_one]
  | succ w ih =>
      have hdigit : (UInt8.ofNat n).toNat = n % 256 := UInt8.toNat_ofNat'
      rw [leBytes, ofLeBytes, ih, hdigit, Nat.pow_succ,
        Nat.mul_comm (256 ^ w) 256, Nat.mod_mul]

/-- Every digit list is the image of the number it denotes. -/
theorem leBytes_ofLeBytes (bs : List UInt8) :
    leBytes bs.length (ofLeBytes bs) = bs := by
  induction bs with
  | nil => rfl
  | cons b bs ih =>
      have hb : b.toNat < 256 := b.toNat_lt
      have hlow : UInt8.ofNat (b.toNat + 256 * ofLeBytes bs) = b := by
        apply UInt8.toNat_inj.mp
        rw [UInt8.toNat_ofNat']
        omega
      have hhigh : (b.toNat + 256 * ofLeBytes bs) / 256 = ofLeBytes bs := by
        omega
      simp only [List.length_cons, ofLeBytes, leBytes, hlow, hhigh, ih]

theorem ofBeBytes_beBytes (w n : Nat) :
    ofBeBytes (beBytes w n) = n % 256 ^ w := by
  rw [ofBeBytes, beBytes, List.reverse_reverse, ofLeBytes_leBytes]

theorem beBytes_ofBeBytes (bs : List UInt8) :
    beBytes bs.length (ofBeBytes bs) = bs := by
  have h := leBytes_ofLeBytes bs.reverse
  rw [List.length_reverse] at h
  rw [beBytes, ofBeBytes, h, List.reverse_reverse]

/-! ## Host endianness -/

/-- The two byte orders of a host. -/
inductive Endian where
  | little
  | big
  deriving DecidableEq, Repr

/-- The memory image of a `w`-byte word on a host. -/
def Endian.image : Endian → Nat → Nat → List UInt8
  | .little, w, n => leBytes w n
  | .big, w, n => beBytes w n

/-- The word a memory image denotes on a host. -/
def Endian.value : Endian → List UInt8 → Nat
  | .little, bs => ofLeBytes bs
  | .big, bs => ofBeBytes bs

/-- Reverse the bytes of a `w`-byte word. -/
def swapBytes (w n : Nat) : Nat := ofLeBytes (beBytes w n)

/-- `htons`/`htonl` (and, being an involution, `ntohs`/`ntohl`) at width `w`. -/
def Endian.hton : Endian → Nat → Nat → Nat
  | .little, w, n => swapBytes w n
  | .big, _, n => n

@[simp] theorem Endian.image_length (e : Endian) (w n : Nat) :
    (e.image w n).length = w := by
  cases e <;> simp [image]

theorem Endian.value_lt (e : Endian) (bs : List UInt8) :
    e.value bs < 256 ^ bs.length := by
  cases e with
  | little => exact ofLeBytes_lt bs
  | big => exact ofBeBytes_lt bs

theorem Endian.value_image (e : Endian) (w n : Nat) :
    e.value (e.image w n) = n % 256 ^ w := by
  cases e with
  | little => exact ofLeBytes_leBytes w n
  | big => exact ofBeBytes_beBytes w n

theorem Endian.value_image_of_lt (e : Endian) {w n : Nat} (h : n < 256 ^ w) :
    e.value (e.image w n) = n := by
  rw [e.value_image, Nat.mod_eq_of_lt h]

/-- Every digit list is the image of the word it denotes. -/
theorem Endian.image_value (e : Endian) (bs : List UInt8) :
    e.image bs.length (e.value bs) = bs := by
  cases e with
  | little => exact leBytes_ofLeBytes bs
  | big => exact beBytes_ofBeBytes bs

theorem swapBytes_lt (w n : Nat) : swapBytes w n < 256 ^ w := by
  have h := ofLeBytes_lt (beBytes w n)
  rwa [beBytes_length] at h

theorem Endian.hton_lt (e : Endian) {w n : Nat} (h : n < 256 ^ w) :
    e.hton w n < 256 ^ w := by
  cases e with
  | little => exact swapBytes_lt w n
  | big => exact h

/-- What a host stores after converting to network order is the big-endian
image, whatever the host is. -/
theorem Endian.image_hton (e : Endian) (w n : Nat) :
    e.image w (e.hton w n) = beBytes w n := by
  cases e with
  | little =>
      have h := leBytes_ofLeBytes (beBytes w n)
      rw [beBytes_length] at h
      exact h
  | big => rfl

/-- Converting a loaded word from network order reads the bytes big-endian,
whatever the host is. -/
theorem Endian.hton_value (e : Endian) (bs : List UInt8) :
    e.hton bs.length (e.value bs) = ofBeBytes bs := by
  cases e with
  | little => rw [hton, value, swapBytes, beBytes, leBytes_ofLeBytes, ofBeBytes]
  | big => rfl

/-- Byte-order conversion is its own inverse. -/
theorem Endian.hton_hton (e : Endian) {w n : Nat} (h : n < 256 ^ w) :
    e.hton w (e.hton w n) = n := by
  have hval : e.value (e.image w (e.hton w n)) = e.hton w n :=
    e.value_image_of_lt (e.hton_lt h)
  have hconv := e.hton_value (e.image w (e.hton w n))
  rw [hval, e.image_length, e.image_hton, ofBeBytes_beBytes,
    Nat.mod_eq_of_lt h] at hconv
  exact hconv

/-! ## Two hosts -/

section TwoHosts

variable {e e' : Endian} (hne : e ≠ e')
include hne

/-- The image of the reversed word is the image on the other host. -/
theorem Endian.image_swapBytes (w n : Nat) : e.image w (swapBytes w n) = e'.image w n := by
  have hswap : leBytes w (swapBytes w n) = beBytes w n := by
    have h := leBytes_ofLeBytes (beBytes w n)
    rwa [beBytes_length] at h
  cases e with
  | little =>
      cases e' with
      | little => exact absurd rfl hne
      | big => exact hswap
  | big =>
      cases e' with
      | little =>
          dsimp only [image]
          rw [beBytes, hswap, beBytes, List.reverse_reverse]
      | big => exact absurd rfl hne

/-- A word stored on one host is loaded reversed on the other. -/
theorem Endian.value_image_other (w n : Nat) : e'.value (e.image w n) = swapBytes w n := by
  rw [← Endian.image_swapBytes hne.symm, e'.value_image_of_lt (swapBytes_lt w n)]

/-- **The images of a word on two hosts** agree exactly for a word that is its own
reversal. -/
theorem Endian.image_eq_iff {w n : Nat} (hn : n < 256 ^ w) :
    e.image w n = e'.image w n ↔ swapBytes w n = n := by
  constructor
  · intro heq
    have hvalue := Endian.value_image_other hne w n
    rw [heq, e'.value_image_of_lt hn] at hvalue
    exact hvalue.symm
  · intro hswap
    rw [← Endian.image_swapBytes hne, hswap]

end TwoHosts

end MyGenSvr.Verified.ByteOrder
