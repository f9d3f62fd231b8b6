import MyGenSvr.Ports.PkgHead

/-!
# The header codec

`packet` has one sequence of copies for each byte-order mode and `unpacket` a
third; a header survives only if the three agree on the order, the offsets and
the conversion of all six fields.

## Main results

* `header_codec` — `packet` and `unpacket` are inverse in either mode on either
  host, and the network image is the big-endian one.
-/

namespace MyGenSvr.Ports

open MyGenSvr.Verified.ByteOrder
open MyGenSvr.Verified.Buffer

/-! ## One word -/

/-- A word comes back from its image. -/
theorem wordValue_wordImage (h : Host) (iNetByteOrder : Bool) (v : UInt32) :
    h.wordValue iNetByteOrder (h.wordImage iNetByteOrder v) = v := by
  cases iNetByteOrder with
  | true =>
      have hlt : v.toNat < 256 ^ 4 := v.toNat_lt
      rw [wordImage_net, wordValue_net h (beImage_length v), beImage, ofBeBytes_beBytes,
        Nat.mod_eq_of_lt hlt, UInt32.ofNat_toNat]
  | false =>
      have hvalue := h.endian.value_image_of_lt (show v.toNat < 256 ^ 4 from v.toNat_lt)
      show UInt32.ofNat (h.endian.value (h.endian.image 4 v.toNat)) = v
      rw [hvalue, UInt32.ofNat_toNat]

/-- Four bytes are the image of the word they are read as. -/
theorem wordImage_wordValue (h : Host) (iNetByteOrder : Bool) {bytes : List UInt8}
    (hlen : bytes.length = 4) :
    h.wordImage iNetByteOrder (h.wordValue iNetByteOrder bytes) = bytes := by
  cases iNetByteOrder with
  | true =>
      have hbytes := beBytes_ofBeBytes bytes
      have hlt := ofBeBytes_lt bytes
      rw [hlen] at hbytes hlt
      rw [wordImage_net, wordValue_net h hlen, beImage, UInt32.toNat_ofNat',
        Nat.mod_eq_of_lt (show _ < 2 ^ 32 from hlt), hbytes]
  | false =>
      have himage := h.endian.image_value bytes
      rw [hlen] at himage
      show h.endian.image 4 (UInt32.ofNat (h.endian.value bytes)).toNat = bytes
      rw [value_toNat h hlen, himage]

/-! ## The whole header -/

@[simp] theorem PkgHead.sent_length (h : Host) (iNetByteOrder : Bool) (p : PkgHead) :
    (p.sent h iNetByteOrder).length = 24 := by
  simp [PkgHead.sent, PkgHead.words]

theorem packet_sent (h : Host) (p : PkgHead) {out : List UInt8} (hlen : 24 ≤ out.length)
    (iNetByteOrder : Bool) :
    p.packet h out iNetByteOrder = some (p.sent h iNetByteOrder ++ out.drop 24) := by
  rw [packet_eq h p hlen, splice_zero, PkgHead.sent_length]

/-- The word whose image stands at an offset. -/
theorem wordAt_wordImage (h : Host) (iNetByteOrder : Bool) {front : List UInt8} {off : Nat}
    (hoff : front.length = off) (v : UInt32) (rest : List UInt8) :
    h.wordAt iNetByteOrder (front ++ (h.wordImage iNetByteOrder v ++ rest)) off = v := by
  have hdrop : (front ++ (h.wordImage iNetByteOrder v ++ rest)).drop off =
      h.wordImage iNetByteOrder v ++ rest := by rw [← hoff, List.drop_left]
  have htake := @List.take_left _ (h.wordImage iNetByteOrder v) rest
  rw [wordImage_length] at htake
  rw [Host.wordAt, hdrop, htake, wordValue_wordImage]

/-- **Decoding what was encoded.** -/
theorem unpacket_sent (h : Host) (iNetByteOrder : Bool) (p : PkgHead) (rest : List UInt8) :
    PkgHead.unpacket h (p.sent h iNetByteOrder ++ rest) iNetByteOrder = some p := by
  have hword : ∀ (front : List UInt32) (v : UInt32) (later : List UInt32),
      p.words = front ++ v :: later →
      h.wordAt iNetByteOrder (p.sent h iNetByteOrder ++ rest) (4 * front.length) = v := by
    intro front v later hsplit
    have hfront : (front.flatMap (h.wordImage iNetByteOrder)).length = 4 * front.length := by
      rw [List.length_flatMap]
      simp [Nat.mul_comm]
    rw [PkgHead.sent, hsplit, List.flatMap_append, List.flatMap_cons, List.append_assoc,
      List.append_assoc]
    exact wordAt_wordImage h iNetByteOrder hfront v _
  have h₀ := hword [] p.uiSrc _ rfl
  have h₁ := hword [p.uiSrc] p.uiExtSrc _ rfl
  have h₂ := hword [p.uiSrc, p.uiExtSrc] p.uiVersion _ rfl
  have h₃ := hword [p.uiSrc, p.uiExtSrc, p.uiVersion] p.uiMsgType _ rfl
  have h₄ := hword [p.uiSrc, p.uiExtSrc, p.uiVersion, p.uiMsgType] p.uiSeq _ rfl
  have h₅ := hword [p.uiSrc, p.uiExtSrc, p.uiVersion, p.uiMsgType, p.uiSeq] p.uiPkgBodyLen
    _ rfl
  simp only [List.length_cons, List.length_nil, Nat.reduceAdd, Nat.reduceMul]
    at h₀ h₁ h₂ h₃ h₄ h₅
  have hlen : 24 ≤ (p.sent h iNetByteOrder ++ rest).length := by
    rw [List.length_append, PkgHead.sent_length]
    omega
  rw [unpacket_eq h hlen, h₀, h₁, h₂, h₃, h₄, h₅]

/-- **Encoding what was decoded.** -/
theorem unpacket_then_packet (h : Host) (iNetByteOrder : Bool) {b : List UInt8}
    (hb : b.length = 24) :
    ∃ p, PkgHead.unpacket h b iNetByteOrder = some p ∧ p.sent h iNetByteOrder = b := by
  have hword : ∀ off, off + 4 ≤ b.length →
      h.wordImage iNetByteOrder (h.wordAt iNetByteOrder b off) = (b.drop off).take 4 := by
    intro off hoff
    exact wordImage_wordValue h iNetByteOrder (length_take_drop hoff)
  have hjoin : ∀ k, b.take k ++ (b.drop k).take 4 = b.take (k + 4) := by
    intro k
    exact List.take_add.symm
  refine ⟨_, unpacket_eq h (by omega) iNetByteOrder, ?_⟩
  simp only [PkgHead.sent, PkgHead.words, List.flatMap_cons, List.flatMap_nil,
    hword 0 (by omega), hword 4 (by omega), hword 8 (by omega), hword 12 (by omega),
    hword 16 (by omega), hword 20 (by omega), List.append_nil, List.drop_zero,
    ← List.append_assoc]
  rw [hjoin 4, hjoin 8, hjoin 12, hjoin 16, hjoin 20]
  exact List.take_of_length_le (by omega)

/-- **The header codec.**  In either mode on either host a header is decoded from
its encoding and 24 bytes are encoded from their decoding; what stands behind
the 24 bytes is kept; and the network image consists of the big-endian bytes of
the fields in their order. -/
theorem header_codec (h : Host) (iNetByteOrder : Bool) {out : List UInt8}
    (hout : 24 ≤ out.length) :
    (∀ p : PkgHead, ∃ out', p.packet h out iNetByteOrder = some out' ∧
      PkgHead.unpacket h out' iNetByteOrder = some p) ∧
    (∀ b : List UInt8, b.length = 24 → ∃ p,
      PkgHead.unpacket h b iNetByteOrder = some p ∧
      p.packet h out iNetByteOrder = some (b ++ out.drop 24)) ∧
    (∀ p : PkgHead, p.packet h out true = some
      (beBytes 4 p.uiSrc.toNat ++ beBytes 4 p.uiExtSrc.toNat ++
        beBytes 4 p.uiVersion.toNat ++ beBytes 4 p.uiMsgType.toNat ++
        beBytes 4 p.uiSeq.toNat ++ beBytes 4 p.uiPkgBodyLen.toNat ++ out.drop 24)) := by
  refine ⟨?_, ?_, ?_⟩
  · intro p
    exact ⟨_, packet_sent h p hout iNetByteOrder, unpacket_sent h iNetByteOrder p _⟩
  · intro b hb
    obtain ⟨p, hp, hsent⟩ := unpacket_then_packet h iNetByteOrder hb
    refine ⟨p, hp, ?_⟩
    rw [packet_sent h p hout, hsent]
  · intro p
    rw [packet_sent h p hout, sent_net]
    rfl

theorem header_codec_exact_fit :
    ∃ out', (PkgHead.mk 1 2 3 4 5 6).packet .x86_64 (List.replicate 24 0) true = some out' ∧
      PkgHead.unpacket .x86_64 out' true = some ⟨1, 2, 3, 4, 5, 6⟩ :=
  (header_codec .x86_64 true (Nat.le_of_eq List.length_replicate.symm)).1 _

end MyGenSvr.Ports
