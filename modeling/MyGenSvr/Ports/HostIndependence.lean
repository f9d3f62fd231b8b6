import MyGenSvr.Ports.SaveErrors

/-!
# Integer fields on two hosts

A sequence of integer fields through a `Serializer` that changes the byte order.
The operators of the 16- and 32-bit types convert; those of the 64-bit types do
not look at the mode.  A 64-bit field is sent as it lies in memory, so that hosts
of different byte order agree on it only when its bytes read the same both ways.

## Main results

* `putFields_written` — the bytes written are the images of the accepted fields.
* `getFields_other` — what the other host decodes.
* `fields_host_independent_iff` — when two hosts agree.
-/

namespace MyGenSvr.Ports

open MyGenSvr.Verified.ByteOrder
open MyGenSvr.Verified.Buffer

/-- The integer types of more than a byte. -/
def Scalar.isInteger : Scalar → Bool
  | .int16 | .uInt16 | .int32 | .uInt32 | .int64 | .uInt64 => true
  | _ => false

/-- A field of an integer type. -/
structure IntField where
  kind : Scalar
  isInteger : kind.isInteger = true
  value : kind.Val

/-- Insert the fields one after the other. -/
def putFields (h : Host) (fields : List IntField) (s : Serializer) : Serializer :=
  List.foldl (fun s f => s.putScalar h f.kind f.value) s fields

/-- Extract into the fields one after the other. -/
def getFields (h : Host) : List IntField → Serializer → Serializer × List IntField
  | [], s => (s, [])
  | f :: fields, s =>
      let r := s.getScalar h f.kind f.value
      let r' := getFields h fields r.1
      (r'.1, { f with value := r.2 } :: r'.2)

/-- The image of a field in network mode. -/
def IntField.wire (h : Host) (f : IntField) : List UInt8 := f.kind.wire h true f.value

/-- The field is of a converted type, or its bytes read the same both ways. -/
def IntField.Portable (f : IntField) : Prop :=
  f.kind.converted = true ∨ swapBytes f.kind.width (f.kind.bits f.value) = f.kind.bits f.value

instance (f : IntField) : Decidable f.Portable := by
  unfold IntField.Portable
  infer_instance

/-- The fields a buffer takes, by their lengths alone. -/
def accepted : List IntField → Filling → List IntField
  | [], _ => []
  | f :: fields, p =>
      let p' := p.offer (UInt32.ofNat f.kind.width)
      if p'.ok then f :: accepted fields p' else accepted fields p'

/-! ## One field -/

section OneField

variable {h h' : Host}

@[simp] theorem IntField.wire_length (h : Host) (f : IntField) :
    (f.wire h).length = f.kind.width := Ports.wire_length h true f.kind f.value

theorem convert_of_converted {k : Scalar} (hk : k.converted = true) (n : Nat) :
    k.convert h true n = h.endian.hton k.width n := by
  rw [Scalar.convert, hk]
  rfl

theorem convert_of_not_converted {k : Scalar} (hk : ¬ k.converted = true) (n : Nat) :
    k.convert h true n = n := by
  rw [Scalar.convert, Bool.eq_false_of_not_eq_true hk]
  rfl

/-- **Two hosts send the same image** of exactly the portable fields. -/
theorem IntField.wire_eq_iff (hne : h.endian ≠ h'.endian) (f : IntField) :
    f.wire h = f.wire h' ↔ f.Portable := by
  unfold IntField.wire Scalar.wire IntField.Portable
  by_cases hk : f.kind.converted = true
  · rw [convert_of_converted hk, convert_of_converted hk, h.endian.image_hton,
      h'.endian.image_hton]
    exact iff_of_true rfl (Or.inl hk)
  · rw [convert_of_not_converted hk, convert_of_not_converted hk,
      Endian.image_eq_iff hne (f.kind.bits_lt f.value)]
    simp only [hk, Bool.false_eq_true, false_or]

/-- The bits of a number taken for an integer. -/
theorem Scalar.bits_ofBits {k : Scalar} (hk : k.isInteger = true) {n : Nat}
    (hn : n < 256 ^ k.width) : k.bits (k.ofBits n) = n := by
  cases k with
  | int16 =>
      rw [ofBits, bits, UInt16.toUInt16_toInt16]
      exact UInt16.toNat_ofNat_of_lt' hn
  | uInt16 => exact UInt16.toNat_ofNat_of_lt' hn
  | int32 =>
      rw [ofBits, bits, UInt32.toUInt32_toInt32]
      exact UInt32.toNat_ofNat_of_lt' hn
  | uInt32 => exact UInt32.toNat_ofNat_of_lt' hn
  | int64 =>
      rw [ofBits, bits, UInt64.toUInt64_toInt64]
      exact UInt64.toNat_ofNat_of_lt' hn
  | uInt64 => exact UInt64.toNat_ofNat_of_lt' hn
  | _ => exact absurd hk (by decide)

/-- The field that host `h'` reads where host `h` wrote `f`. -/
def IntField.sentTo (h h' : Host) (f : IntField) : IntField :=
  { f with value := f.kind.ofBits (f.kind.convert h' true (h'.endian.value (f.wire h))) }

/-- **The other host reads the same field** exactly where it is portable. -/
theorem IntField.sentTo_eq_iff (hne : h.endian ≠ h'.endian) (f : IntField) :
    f.sentTo h h' = f ↔ f.Portable := by
  obtain ⟨k, hint, v⟩ := f
  have hbits := k.bits_lt v
  have hvalue : IntField.sentTo h h' ⟨k, hint, v⟩ = ⟨k, hint, v⟩ ↔
      k.ofBits (k.convert h' true (h'.endian.value (k.wire h true v))) = v := by
    simp only [IntField.sentTo, IntField.wire, IntField.mk.injEq, heq_eq_eq, true_and]
  rw [hvalue, IntField.Portable]
  dsimp only
  by_cases hk : k.converted = true
  · have hsame : k.wire h true v = k.wire h' true v :=
      (IntField.wire_eq_iff hne ⟨k, hint, v⟩).mpr (Or.inl hk)
    rw [hsame]
    exact iff_of_true (ofBits_wire h' true k v) (Or.inl hk)
  · rw [Scalar.wire, convert_of_not_converted hk, convert_of_not_converted hk,
      Endian.value_image_other hne]
    simp only [hk, Bool.false_eq_true, false_or]
    constructor
    · intro heq
      have hback := Scalar.bits_ofBits hint (swapBytes_lt k.width (k.bits v))
      rw [heq] at hback
      exact hback.symm
    · intro hswap
      rw [hswap, Scalar.ofBits_bits]

end OneField

/-! ## A sequence of fields -/

section Sequence

variable {h h' : Host}

/-- From `b` to `b'` the bytes `bytes` were written, inside the buffer or not. -/
structure Wrote (b b' : DataBuffer) (bytes : List UInt8) : Prop where
  in_memory : b'.pWrite ≤ b'.pData.length
  write_eq : b'.pWrite = b.pWrite + bytes.length
  data_eq : b'.pData = splice b.pData b.pWrite bytes

theorem Wrote.refl {b : DataBuffer} (hb : b.pWrite ≤ b.pData.length) : Wrote b b [] where
  in_memory := hb
  write_eq := rfl
  data_eq := by
    rw [splice, List.append_nil, List.length_nil, Nat.add_zero, List.take_append_drop]

theorem Wrote.trans {b b' b'' : DataBuffer} {xs ys : List UInt8} (h : Wrote b b' xs)
    (h' : Wrote b' b'' ys) (hb : b.pWrite ≤ b.pData.length) : Wrote b b'' (xs ++ ys) where
  in_memory := h'.in_memory
  write_eq := by
    rw [h'.write_eq, h.write_eq, List.length_append]
    omega
  data_eq := by
    rw [h'.data_eq, h.data_eq, h.write_eq, splice_splice hb]

theorem Wrote.written_eq {b b' : DataBuffer} {bytes : List UInt8} (h : Wrote b b' bytes)
    (hb : b.pWrite ≤ b.pData.length) : written b b' = bytes := by
  rw [written, h.data_eq, h.write_eq, Nat.add_sub_cancel_left]
  exact splice_range hb

/-- An insertion writes the image if its piece is accepted, and else nothing. -/
theorem putScalar_wrote (h : Host) (f : IntField) {s : Serializer}
    (hmode : s.changeByteOrder = true) (hb : s.pBuffer.pWrite ≤ s.pBuffer.pData.length) :
    Wrote s.pBuffer (s.putScalar h f.kind f.value).pBuffer
      (if (s.filling.offer (UInt32.ofNat f.kind.width)).ok then f.wire h else []) := by
  have hwidth := width_toNat f.kind
  have hlen := f.wire_length h
  have hput : s.putScalar h f.kind f.value =
      s.settle (s.pBuffer.write (f.wire h) (UInt32.ofNat f.kind.width)) := by
    rw [putScalar_settle, hmode]
    rfl
  rw [hput, offer_eq, DataBuffer.write]
  cases haccepts : s.pBuffer.accepts (UInt32.ofNat f.kind.width) with
  | false => exact Wrote.refl hb
  | true =>
      rw [hwidth, List.take_of_length_le hlen.le]
      refine ⟨?_, congrArg (s.pBuffer.pWrite + ·) hlen.symm, rfl⟩
      have hsplice := @splice_take _ _ (f.wire h) hb
      have hpart := congrArg List.length hsplice
      rw [List.length_take, List.length_append, List.length_take, hlen] at hpart
      show s.pBuffer.pWrite + f.kind.width ≤
        (splice s.pBuffer.pData s.pBuffer.pWrite (f.wire h)).length
      omega

/-- **What is written** are the images of the accepted fields. -/
theorem putFields_wrote (h : Host) (fields : List IntField) :
    ∀ s : Serializer, s.changeByteOrder = true → s.pBuffer.pWrite ≤ s.pBuffer.pData.length →
      Wrote s.pBuffer (putFields h fields s).pBuffer
        ((accepted fields s.filling).flatMap (IntField.wire h)) := by
  induction fields with
  | nil =>
      intro s _ hb
      exact Wrote.refl hb
  | cons f fields ih =>
      intro s hmode hb
      have hone := putScalar_wrote h f hmode hb
      have hfill := putScalar_filling h f.kind s f.value
      have hmode' : (s.putScalar h f.kind f.value).changeByteOrder = true := by
        rw [putScalar_settle, settle_changeByteOrder, hmode]
      have hrest := ih (s.putScalar h f.kind f.value) hmode' hone.in_memory
      have hboth := hone.trans hrest hb
      rw [hfill] at hboth
      simp only [accepted]
      by_cases hok : (s.filling.offer (UInt32.ofNat f.kind.width)).ok = true
      · rw [if_pos hok] at hboth ⊢
        rw [List.flatMap_cons]
        exact hboth
      · rw [if_neg hok, List.nil_append] at hboth
        rw [if_neg hok]
        exact hboth

theorem putFields_written (h : Host) (fields : List IntField) {s : Serializer}
    (hmode : s.changeByteOrder = true) (ho : Ordered s.pBuffer) :
    written s.pBuffer (putFields h fields s).pBuffer =
      (accepted fields s.filling).flatMap (IntField.wire h) :=
  (putFields_wrote h fields s hmode ho.write_le_mem).written_eq ho.write_le_mem

/-- Where no error was recorded every field was accepted. -/
theorem accepted_of_clean (h : Host) (fields : List IntField) :
    ∀ s : Serializer, (putFields h fields s).Clean →
      s.Clean ∧ accepted fields s.filling = fields := by
  induction fields with
  | nil =>
      intro s hclean
      exact ⟨hclean, rfl⟩
  | cons f fields ih =>
      intro s hclean
      obtain ⟨hone, hrest⟩ := ih (s.putScalar h f.kind f.value) hclean
      rw [putScalar_filling] at hrest
      rw [putScalar_settle] at hone
      have hput := putScalar_filling h f.kind s f.value
      rw [putScalar_settle] at hput
      cases haccess : s.pBuffer.write (f.kind.wire h s.changeByteOrder f.value)
          (UInt32.ofNat f.kind.width) with
      | none =>
          rw [haccess] at hone
          exact absurd hone (not_clean_setError s)
      | some b =>
          rw [haccess] at hone hput
          have hok : (s.filling.offer (UInt32.ofNat f.kind.width)).ok = true := by
            rw [← hput]
            rfl
          simp only [accepted]
          rw [if_pos hok, hrest]
          exact ⟨(clean_ok b).mp hone, rfl⟩

/-- **What the other host decodes**: field by field what it reads in the image. -/
theorem getFields_other (h h' : Host) (fields : List IntField) :
    ∀ (vars : List IntField) (s : Serializer) (rest : List UInt8),
      vars.map IntField.kind = fields.map IntField.kind → s.changeByteOrder = true →
      s.iError = 0 → Ordered s.pBuffer →
      s.pBuffer.unread = fields.flatMap (IntField.wire h) ++ rest →
      (getFields h' vars s).1.iError = 0 ∧
        (getFields h' vars s).2 = fields.map (IntField.sentTo h h') := by
  induction fields with
  | nil =>
      intro vars s rest hkinds _ herr _ _
      rw [List.map_nil, List.map_eq_nil_iff] at hkinds
      rw [hkinds]
      exact ⟨herr, rfl⟩
  | cons f fields ih =>
      intro vars s rest hkinds hmode herr ho hun
      cases vars with
      | nil => exact absurd hkinds (by simp)
      | cons x vars =>
          rw [List.map_cons, List.map_cons, List.cons.injEq] at hkinds
          obtain ⟨hkind, hkinds⟩ := hkinds
          obtain ⟨k, hx, v⟩ := x
          obtain ⟨k', hf, w⟩ := f
          obtain rfl : k = k' := hkind
          rw [List.flatMap_cons, List.append_assoc] at hun
          have hlen : k.width ≤ s.pBuffer.unread.length := by
            rw [hun, List.length_append, IntField.wire_length]
            exact Nat.le_add_right _ _
          have htake : s.pBuffer.unread.take k.width = IntField.wire h ⟨k, hf, w⟩ := by
            rw [hun]
            exact List.take_left' (IntField.wire_length h _)
          have hdrop : s.pBuffer.unread.drop k.width =
              fields.flatMap (IntField.wire h) ++ rest := by
            rw [hun]
            exact List.drop_left' (IntField.wire_length h _)
          have hget := getScalar_of_le h' k ho v hlen
          rw [hmode, htake] at hget
          have hrest := ih vars
            (s.ok { s.pBuffer with pRead := s.pBuffer.pRead + k.width }) rest hkinds hmode
            rfl (ho.advance hlen) ((unread_advance s.pBuffer k.width).trans hdrop)
          simp only [getFields, hget]
          exact ⟨hrest.1, congrArg _ hrest.2⟩

/-- Parts of equal lengths agree together exactly if they agree one by one. -/
theorem flatMap_eq_flatMap_iff {α : Type} {f g : α → List UInt8} {xs : List α}
    (hlen : ∀ x, (f x).length = (g x).length) :
    xs.flatMap f = xs.flatMap g ↔ ∀ x ∈ xs, f x = g x := by
  induction xs with
  | nil => simp
  | cons x xs ih =>
      rw [List.flatMap_cons, List.flatMap_cons, List.forall_mem_cons, ← ih]
      exact ⟨fun heq => List.append_inj heq (hlen x), fun ⟨hx, hxs⟩ => by rw [hx, hxs]⟩

end Sequence

/-! ## Main results -/

/-- **When two hosts of different byte order agree.**  They write the same bytes exactly
when every field the buffer accepts is portable; and what one wrote without an error the
other decodes to the same values exactly when every field is. -/
theorem fields_host_independent_iff (h h' : Host) (hne : h.endian ≠ h'.endian)
    (fields : List IntField) :
    (∀ s : Serializer, s.changeByteOrder = true → Ordered s.pBuffer →
      (written s.pBuffer (putFields h fields s).pBuffer =
          written s.pBuffer (putFields h' fields s).pBuffer ↔
        ∀ f ∈ accepted fields s.filling, f.Portable)) ∧
    (∀ (s : Serializer) (b : DataBuffer) (vars : List IntField) (rest : List UInt8),
      s.changeByteOrder = true → Ordered s.pBuffer → (putFields h fields s).Clean →
      Ordered b → b.unread = written s.pBuffer (putFields h fields s).pBuffer ++ rest →
      vars.map IntField.kind = fields.map IntField.kind →
      ((getFields h' vars (.new b true)).1.iError = 0 ∧
          (getFields h' vars (.new b true)).2 = fields ↔
        ∀ f ∈ fields, f.Portable)) := by
  constructor
  · intro s hmode ho
    rw [putFields_written h fields hmode ho, putFields_written h' fields hmode ho,
      flatMap_eq_flatMap_iff (fun f => by rw [f.wire_length, f.wire_length])]
    exact forall₂_congr fun f _ => IntField.wire_eq_iff hne f
  · intro s b vars rest hmode ho hclean hb hun hkinds
    rw [putFields_written h fields hmode ho,
      (accepted_of_clean h fields s hclean).2] at hun
    obtain ⟨herr, hvalues⟩ :=
      getFields_other h h' fields vars (.new b true) rest hkinds rfl rfl hb hun
    have hfields : fields = fields.map id := (List.map_id fields).symm
    simp only [herr, hvalues, true_and]
    nth_rewrite 2 [hfields]
    rw [List.map_inj_left]
    exact forall₂_congr fun f _ => IntField.sentTo_eq_iff hne f

/-- A 32-bit field and a 64-bit one whose bytes read the same both ways: the two hosts
write the same, and one reads what the other wrote. -/
theorem fields_host_independent_iff_two_fields :
    (written (.ofData (List.replicate 12 0) 12 0)
        (putFields .x86_64 [⟨.int32, rfl, -2⟩, ⟨.uInt64, rfl, 0x0100000000000001⟩]
          (.new (.ofData (List.replicate 12 0) 12 0) true)).pBuffer =
      written (.ofData (List.replicate 12 0) 12 0)
        (putFields .bigEndian [⟨.int32, rfl, -2⟩, ⟨.uInt64, rfl, 0x0100000000000001⟩]
          (.new (.ofData (List.replicate 12 0) 12 0) true)).pBuffer) ∧
    (getFields .bigEndian [⟨.int32, rfl, 0⟩, ⟨.uInt64, rfl, 0⟩]
        (.new ⟨[255, 255, 255, 254, 1, 0, 0, 0, 0, 0, 0, 1], 12, 0, 12⟩ true)).2 =
      [⟨.int32, rfl, -2⟩, ⟨.uInt64, rfl, 0x0100000000000001⟩] := by
  obtain ⟨hsame, hread⟩ := fields_host_independent_iff .x86_64 .bigEndian (by decide)
    [⟨.int32, rfl, -2⟩, ⟨.uInt64, rfl, 0x0100000000000001⟩]
  constructor
  · exact (hsame (.new (.ofData (List.replicate 12 0) 12 0) true) rfl
      ⟨by decide, by decide, by decide⟩).mpr (by decide)
  · have hback := hread (.new (.ofData (List.replicate 12 0) 12 0) true)
      ⟨[255, 255, 255, 254, 1, 0, 0, 0, 0, 0, 0, 1], 12, 0, 12⟩
      [⟨.int32, rfl, 0⟩, ⟨.uInt64, rfl, 0⟩] [] rfl ⟨by decide, by decide, by decide⟩
      (by decide) ⟨by decide, by decide, by decide⟩ (by decide) rfl
    exact (hback.mpr (by decide)).2

/-- **A 64-bit field is sent in the byte order of its host**: the number 1 leaves one
host as other bytes than the other, and arrives there as another number. -/
theorem int64_in_host_order :
    (¬ ∀ (h h' : Host) (fields : List IntField) (s : Serializer),
      h.endian ≠ h'.endian → s.changeByteOrder = true → Ordered s.pBuffer →
      written s.pBuffer (putFields h fields s).pBuffer =
        written s.pBuffer (putFields h' fields s).pBuffer) ∧
    (¬ ∀ (h h' : Host) (fields vars : List IntField) (s : Serializer) (b : DataBuffer),
      h.endian ≠ h'.endian → s.changeByteOrder = true → Ordered s.pBuffer →
      (putFields h fields s).Clean → Ordered b →
      b.unread = written s.pBuffer (putFields h fields s).pBuffer →
      vars.map IntField.kind = fields.map IntField.kind →
      (getFields h' vars (.new b true)).2 = fields) := by
  constructor
  · intro hall
    have hsame := hall .x86_64 .bigEndian [⟨.int64, rfl, 1⟩]
      (.new (.ofData (List.replicate 8 0) 8 0) true) (by decide) rfl
      ⟨by decide, by decide, by decide⟩
    exact absurd hsame (by decide)
  · intro hall
    have hread := hall .x86_64 .bigEndian [⟨.int64, rfl, 1⟩] [⟨.int64, rfl, 0⟩]
      (.new (.ofData (List.replicate 8 0) 8 0) true) ⟨[1, 0, 0, 0, 0, 0, 0, 0], 8, 0, 8⟩
      (by decide) rfl ⟨by decide, by decide, by decide⟩ (by decide)
      ⟨by decide, by decide, by decide⟩ (by decide) rfl
    have hbits := congrArg (List.map fun f : IntField => f.kind.bits f.value) hread
    exact absurd hbits (by decide)

end MyGenSvr.Ports
