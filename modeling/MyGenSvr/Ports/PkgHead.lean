import MyGenSvr.Ports.CommDef
import MyGenSvr.Verified.Buffer
import MyGenSvr.Verified.Framing

/-!
# `PkgHead`

The 24-byte header in front of every request and acknowledgement: six 32-bit
words.  In network mode each word goes through `htonl`/`ntohl`, so its wire form
is big-endian on either host.

## Main results

* `unpacket_eq`, `packet_eq` — what the two copy, in either mode.
* `unpacket_net`, `packet_net` — the same in network mode, as big-endian words.
* `PkgHead.ofBytes_image` — a header is read back from its image.
* `pkgFramer` — the framing a header announces: a total above `MAXFRAME` is
  bad, and a frame is complete once its total has arrived.
-/

namespace MyGenSvr.Ports

open MyGenSvr.Verified.ByteOrder
open MyGenSvr.Verified.Buffer
open MyGenSvr.Verified.Framing

/-- The fields of the header, in wire order. -/
structure PkgHead where
  uiSrc : UInt32
  uiExtSrc : UInt32
  uiVersion : UInt32
  uiMsgType : UInt32
  uiSeq : UInt32
  uiPkgBodyLen : UInt32
  deriving DecidableEq, Repr

/-- `sizeof(PkgHead)`; the structure is packed. -/
def PkgHead.sizeof : Nat := 24

/-- `htonl`, and `ntohl`. -/
def Host.htonl (h : Host) (v : UInt32) : UInt32 :=
  UInt32.ofNat (h.endian.hton 4 v.toNat)

/-- `memcpy` of one word to `sPkgOutput + iTmpLen`, and the step of `iTmpLen`;
`none` is a copy beyond the output. -/
def copyOut (h : Host) (word : UInt32) (out : List UInt8 × Nat) :
    Option (List UInt8 × Nat) := do
  let sPkgOutput ← store out.1 out.2 (h.endian.image 4 word.toNat)
  return (sPkgOutput, out.2 + 4)

/-- `memcpy` of one word from `sPkgInput + iTmpLen`; `none` is a copy from
beyond the input. -/
def copyIn (h : Host) (sPkgInput : List UInt8) (iTmpLen : Nat) : Option UInt32 :=
  (load sPkgInput iTmpLen 4).map fun bytes => UInt32.ofNat (h.endian.value bytes)

/-- `packet`. -/
def PkgHead.packet (h : Host) (p : PkgHead) (sPkgOutput : List UInt8)
    (iNetByteOrder : Bool) : Option (List UInt8) :=
  if iNetByteOrder then do
    let out ← copyOut h (h.htonl p.uiSrc) (sPkgOutput, 0)
    let out ← copyOut h (h.htonl p.uiExtSrc) out
    let out ← copyOut h (h.htonl p.uiVersion) out
    let out ← copyOut h (h.htonl p.uiMsgType) out
    let out ← copyOut h (h.htonl p.uiSeq) out
    let out ← copyOut h (h.htonl p.uiPkgBodyLen) out
    return out.1
  else do
    let out ← copyOut h p.uiSrc (sPkgOutput, 0)
    let out ← copyOut h p.uiExtSrc out
    let out ← copyOut h p.uiVersion out
    let out ← copyOut h p.uiMsgType out
    let out ← copyOut h p.uiSeq out
    let out ← copyOut h p.uiPkgBodyLen out
    return out.1

/-- The fields of a header converted by `ntohl`. -/
def PkgHead.ntohl (h : Host) (p : PkgHead) : PkgHead :=
  ⟨h.htonl p.uiSrc, h.htonl p.uiExtSrc, h.htonl p.uiVersion, h.htonl p.uiMsgType,
    h.htonl p.uiSeq, h.htonl p.uiPkgBodyLen⟩

/-- `unpacket`. -/
def PkgHead.unpacket (h : Host) (sPkgInput : List UInt8) (iNetByteOrder : Bool) :
    Option PkgHead := do
  let uiSrc ← copyIn h sPkgInput 0
  let uiExtSrc ← copyIn h sPkgInput 4
  let uiVersion ← copyIn h sPkgInput 8
  let uiMsgType ← copyIn h sPkgInput 12
  let uiSeq ← copyIn h sPkgInput 16
  let uiPkgBodyLen ← copyIn h sPkgInput 20
  let p : PkgHead := ⟨uiSrc, uiExtSrc, uiVersion, uiMsgType, uiSeq, uiPkgBodyLen⟩
  return if iNetByteOrder then p.ntohl h else p

/-! ## Words on the wire -/

/-- The big-endian word at an offset. -/
def beWord (m : List UInt8) (off : Nat) : UInt32 :=
  UInt32.ofNat (ofBeBytes ((m.drop off).take 4))

/-- The big-endian image of a word. -/
def beImage (v : UInt32) : List UInt8 := beBytes 4 v.toNat

@[simp] theorem beImage_length (v : UInt32) : (beImage v).length = 4 :=
  beBytes_length 4 v.toNat

theorem htonl_toNat (h : Host) (v : UInt32) :
    (h.htonl v).toNat = h.endian.hton 4 v.toNat := by
  have hlt : h.endian.hton 4 v.toNat < 256 ^ 4 := h.endian.hton_lt v.toNat_lt
  rw [Host.htonl, UInt32.toNat_ofNat']
  exact Nat.mod_eq_of_lt hlt

/-- The bytes a word is copied out as, after the conversion of the mode. -/
def Host.wordImage (h : Host) (iNetByteOrder : Bool) (v : UInt32) : List UInt8 :=
  h.endian.image 4 (if iNetByteOrder then h.htonl v else v).toNat

/-- The word four bytes are copied in as, with the conversion of the mode. -/
def Host.wordValue (h : Host) (iNetByteOrder : Bool) (bytes : List UInt8) : UInt32 :=
  let word := UInt32.ofNat (h.endian.value bytes)
  if iNetByteOrder then h.htonl word else word

@[simp] theorem wordImage_length (h : Host) (iNetByteOrder : Bool) (v : UInt32) :
    (h.wordImage iNetByteOrder v).length = 4 := h.endian.image_length 4 _

/-- In network mode the image is big-endian on any host. -/
theorem wordImage_net (h : Host) (v : UInt32) : h.wordImage true v = beImage v := by
  rw [Host.wordImage, if_pos rfl, htonl_toNat, h.endian.image_hton, beImage]

theorem value_toNat (h : Host) {bytes : List UInt8} (hlen : bytes.length = 4) :
    (UInt32.ofNat (h.endian.value bytes)).toNat = h.endian.value bytes := by
  have hlt := h.endian.value_lt bytes
  rw [hlen] at hlt
  rw [UInt32.toNat_ofNat']
  exact Nat.mod_eq_of_lt hlt

/-- In network mode the value is that of the big-endian digits. -/
theorem wordValue_net (h : Host) {bytes : List UInt8} (hlen : bytes.length = 4) :
    h.wordValue true bytes = UInt32.ofNat (ofBeBytes bytes) := by
  have hconv := h.endian.hton_value bytes
  rw [hlen] at hconv
  simp only [Host.wordValue, if_true, Host.htonl, value_toNat h hlen, hconv]

theorem copyIn_eq (h : Host) {m : List UInt8} {off : Nat} (hlen : off + 4 ≤ m.length) :
    copyIn h m off = some (UInt32.ofNat (h.endian.value ((m.drop off).take 4))) := by
  rw [copyIn, load_eq_some hlen, Option.map_some]

/-- The word `unpacket` reads at an offset. -/
def Host.wordAt (h : Host) (iNetByteOrder : Bool) (m : List UInt8) (off : Nat) : UInt32 :=
  h.wordValue iNetByteOrder ((m.drop off).take 4)

/-- **`unpacket`** reads six words. -/
theorem unpacket_eq (h : Host) {m : List UInt8} (hlen : 24 ≤ m.length)
    (iNetByteOrder : Bool) :
    PkgHead.unpacket h m iNetByteOrder =
      some ⟨h.wordAt iNetByteOrder m 0, h.wordAt iNetByteOrder m 4,
        h.wordAt iNetByteOrder m 8, h.wordAt iNetByteOrder m 12,
        h.wordAt iNetByteOrder m 16, h.wordAt iNetByteOrder m 20⟩ := by
  simp only [PkgHead.unpacket, copyIn_eq h (show 0 + 4 ≤ m.length by omega),
    copyIn_eq h (show 4 + 4 ≤ m.length by omega),
    copyIn_eq h (show 8 + 4 ≤ m.length by omega),
    copyIn_eq h (show 12 + 4 ≤ m.length by omega),
    copyIn_eq h (show 16 + 4 ≤ m.length by omega),
    copyIn_eq h (show 20 + 4 ≤ m.length by omega)]
  cases iNetByteOrder <;> rfl

/-- One more word behind what has been copied out. -/
theorem copyOut_next (h : Host) {out front : List UInt8} (word : UInt32)
    (hfit : front.length + 4 ≤ out.length) :
    copyOut h word (splice out 0 front, front.length) =
      some (splice out 0 (front ++ h.endian.image 4 word.toNat),
        (front ++ h.endian.image 4 word.toNat).length) := by
  have hkeep : (splice out 0 front).length = out.length := splice_length (by omega)
  have himage : (h.endian.image 4 word.toNat).length = 4 := h.endian.image_length 4 _
  have hnext := @splice_splice out 0 front (h.endian.image 4 word.toNat) (Nat.zero_le _)
  rw [Nat.zero_add] at hnext
  have hstore : store (splice out 0 front) front.length (h.endian.image 4 word.toNat) =
      some (splice out 0 (front ++ h.endian.image 4 word.toNat)) := by
    rw [store_eq_some (by omega), hnext]
  simp only [copyOut, hstore, Option.bind_eq_bind, Option.bind_some, List.length_append,
    himage]
  rfl

/-- The fields, in wire order. -/
def PkgHead.words (p : PkgHead) : List UInt32 :=
  [p.uiSrc, p.uiExtSrc, p.uiVersion, p.uiMsgType, p.uiSeq, p.uiPkgBodyLen]

/-- The bytes `packet` puts at the front of its output. -/
def PkgHead.sent (h : Host) (iNetByteOrder : Bool) (p : PkgHead) : List UInt8 :=
  p.words.flatMap (h.wordImage iNetByteOrder)

/-- Copying out a run of words. -/
theorem copyOut_run (h : Host) {out : List UInt8} (words : List UInt32)
    (front : List UInt8) (hfit : front.length + 4 * words.length ≤ out.length) :
    words.foldlM (fun acc word => copyOut h word acc) (splice out 0 front, front.length) =
      some (splice out 0 (front ++ words.flatMap fun word => h.endian.image 4 word.toNat),
        front.length + 4 * words.length) := by
  induction words generalizing front with
  | nil => simp
  | cons word words ih =>
      have himage : (h.endian.image 4 word.toNat).length = 4 := h.endian.image_length 4 _
      rw [List.length_cons] at hfit
      have hrest := ih (front ++ h.endian.image 4 word.toNat)
        (by rw [List.length_append, himage]; omega)
      rw [List.foldlM_cons, copyOut_next h word (by omega), Option.bind_eq_bind,
        Option.bind_some, hrest, List.flatMap_cons, List.append_assoc, List.length_append,
        himage, List.length_cons]
      congr 2
      omega

/-- Either branch of `packet` copies out the converted fields one after another. -/
theorem packet_run (h : Host) (p : PkgHead) (out : List UInt8) (iNetByteOrder : Bool) :
    p.packet h out iNetByteOrder =
      ((p.words.map fun word => if iNetByteOrder then h.htonl word else word).foldlM
        (fun acc word => copyOut h word acc) (out, 0)).map Prod.fst := by
  have hmap : ∀ last : Option (List UInt8 × Nat),
      last.map Prod.fst = last.bind fun out => some out.1 := by
    intro last
    cases last <;> rfl
  cases iNetByteOrder <;> simp [PkgHead.packet, PkgHead.words, hmap, Option.bind_assoc]

/-- **`packet`** writes the six words at the front. -/
theorem packet_eq (h : Host) (p : PkgHead) {out : List UInt8} (hlen : 24 ≤ out.length)
    (iNetByteOrder : Bool) :
    p.packet h out iNetByteOrder =
      some (splice out 0 (p.sent h iNetByteOrder)) := by
  have hstart := @copyOut_run h out
    (p.words.map fun word => if iNetByteOrder then h.htonl word else word) []
    (by rw [List.length_nil, List.length_map, PkgHead.words]; simp; omega)
  have hempty : splice out 0 [] = out := by
    rw [splice_zero]
    rfl
  rw [hempty, List.nil_append, List.length_nil, List.flatMap_map] at hstart
  rw [packet_run, hstart]
  rfl

/-- The header at the front of `m`, read big-endian. -/
def PkgHead.ofBytes (m : List UInt8) : PkgHead :=
  ⟨beWord m 0, beWord m 4, beWord m 8, beWord m 12, beWord m 16, beWord m 20⟩

/-- The big-endian image of a header. -/
def PkgHead.image (p : PkgHead) : List UInt8 :=
  beImage p.uiSrc ++ beImage p.uiExtSrc ++ beImage p.uiVersion ++
    beImage p.uiMsgType ++ beImage p.uiSeq ++ beImage p.uiPkgBodyLen

@[simp] theorem PkgHead.image_length (p : PkgHead) : p.image.length = 24 := by
  simp [PkgHead.image]

/-- **`unpacket` in network mode** reads six big-endian words. -/
theorem unpacket_net (h : Host) {m : List UInt8} (hlen : 24 ≤ m.length) :
    PkgHead.unpacket h m true = some (PkgHead.ofBytes m) := by
  have hword : ∀ off, off + 4 ≤ m.length → h.wordAt true m off = beWord m off := by
    intro off hoff
    exact wordValue_net h (length_take_drop hoff)
  rw [unpacket_eq h hlen, hword 0 (by omega), hword 4 (by omega), hword 8 (by omega),
    hword 12 (by omega), hword 16 (by omega), hword 20 (by omega), PkgHead.ofBytes]

/-- The network image is the big-endian one, on any host. -/
theorem sent_net (h : Host) (p : PkgHead) : p.sent h true = p.image := by
  simp only [PkgHead.sent, PkgHead.words, PkgHead.image, List.flatMap_cons,
    List.flatMap_nil, wordImage_net, List.append_nil, List.append_assoc]

/-- **`packet` in network mode** writes six big-endian words at the front. -/
theorem packet_net (h : Host) (p : PkgHead) {out : List UInt8}
    (hlen : 24 ≤ out.length) :
    p.packet h out true = some (splice out 0 p.image) := by
  rw [packet_eq h p hlen, sent_net]

/-- The word whose image stands at an offset. -/
theorem beWord_beImage {front : List UInt8} {off : Nat} (hoff : front.length = off)
    (v : UInt32) (rest : List UInt8) : beWord (front ++ (beImage v ++ rest)) off = v := by
  have hdrop : (front ++ (beImage v ++ rest)).drop off = beImage v ++ rest := by
    rw [← hoff, List.drop_left]
  have htake : (beImage v ++ rest).take 4 = beImage v := by
    have hleft := @List.take_left _ (beImage v) rest
    rwa [beImage_length] at hleft
  have hlt : v.toNat < 256 ^ 4 := v.toNat_lt
  rw [beWord, hdrop, htake, beImage, ofBeBytes_beBytes, Nat.mod_eq_of_lt hlt,
    UInt32.ofNat_toNat]

/-- **Reading a header back** from its image. -/
theorem PkgHead.ofBytes_image (p : PkgHead) (rest : List UInt8) :
    PkgHead.ofBytes (p.image ++ rest) = p := by
  have hword : ∀ (front : List UInt8) (v : UInt32) (later : List UInt8),
      p.image ++ rest = front ++ (beImage v ++ later) →
      beWord (p.image ++ rest) front.length = v := by
    intro front v later hsplit
    rw [hsplit]
    exact beWord_beImage rfl v later
  have h₀ := hword [] p.uiSrc _ (by simp [PkgHead.image]; rfl)
  have h₁ := hword (beImage p.uiSrc) p.uiExtSrc _ (by simp [PkgHead.image]; rfl)
  have h₂ := hword (beImage p.uiSrc ++ beImage p.uiExtSrc) p.uiVersion _
    (by simp [PkgHead.image]; rfl)
  have h₃ := hword (beImage p.uiSrc ++ beImage p.uiExtSrc ++ beImage p.uiVersion)
    p.uiMsgType _ (by simp [PkgHead.image]; rfl)
  have h₄ := hword (beImage p.uiSrc ++ beImage p.uiExtSrc ++ beImage p.uiVersion ++
    beImage p.uiMsgType) p.uiSeq _ (by simp [PkgHead.image]; rfl)
  have h₅ := hword (beImage p.uiSrc ++ beImage p.uiExtSrc ++ beImage p.uiVersion ++
    beImage p.uiMsgType ++ beImage p.uiSeq) p.uiPkgBodyLen rest (by simp [PkgHead.image])
  simp only [List.length_append, beImage_length, List.length_nil] at h₀ h₁ h₂ h₃ h₄ h₅
  rw [PkgHead.ofBytes, h₀, h₁, h₂, h₃, h₄, h₅]

theorem beWord_append {m later : List UInt8} {off : Nat} (hlen : off + 4 ≤ m.length) :
    beWord (m ++ later) off = beWord m off := by
  have htake : ((m ++ later).drop off).take 4 = (m.drop off).take 4 := by
    rw [List.drop_append_of_le_length (by omega),
      List.take_append_of_le_length (by rw [List.length_drop]; omega)]
  rw [beWord, beWord, htake]

/-- The header depends on the first 24 bytes only. -/
theorem PkgHead.ofBytes_append {m later : List UInt8} (hlen : 24 ≤ m.length) :
    PkgHead.ofBytes (m ++ later) = PkgHead.ofBytes m := by
  simp only [PkgHead.ofBytes, beWord_append (show 0 + 4 ≤ m.length by omega),
    beWord_append (show 4 + 4 ≤ m.length by omega),
    beWord_append (show 8 + 4 ≤ m.length by omega),
    beWord_append (show 12 + 4 ≤ m.length by omega),
    beWord_append (show 16 + 4 ≤ m.length by omega),
    beWord_append (show 20 + 4 ≤ m.length by omega)]

/-- Writing back the word at an offset. -/
theorem beImage_beWord {m : List UInt8} {off : Nat} (hlen : off + 4 ≤ m.length) :
    beImage (beWord m off) = (m.drop off).take 4 := by
  have hfour : ((m.drop off).take 4).length = 4 := length_take_drop hlen
  have hlt := ofBeBytes_lt ((m.drop off).take 4)
  rw [hfour] at hlt
  have hword := beBytes_ofBeBytes ((m.drop off).take 4)
  rw [hfour] at hword
  rw [beImage, beWord, UInt32.toNat_ofNat', Nat.mod_eq_of_lt (show _ < 2 ^ 32 from hlt), hword]

/-- A header that keeps all fields but the body length keeps the first 20 bytes. -/
theorem image_ofBytes {m : List UInt8} (hlen : 24 ≤ m.length) (uiPkgBodyLen : UInt32) :
    { PkgHead.ofBytes m with uiPkgBodyLen := uiPkgBodyLen }.image =
      m.take 20 ++ beImage uiPkgBodyLen := by
  have hjoin : ∀ k, m.take k ++ (m.drop k).take 4 = m.take (k + 4) := by
    intro k
    exact List.take_add.symm
  simp only [PkgHead.image, PkgHead.ofBytes, beImage_beWord (show 0 + 4 ≤ m.length by omega),
    beImage_beWord (show 4 + 4 ≤ m.length by omega),
    beImage_beWord (show 8 + 4 ≤ m.length by omega),
    beImage_beWord (show 12 + 4 ≤ m.length by omega),
    beImage_beWord (show 16 + 4 ≤ m.length by omega), List.drop_zero]
  rw [hjoin 4, hjoin 8, hjoin 12, hjoin 16]

/-! ## The framing -/

/-- The largest total length a header may announce. -/
def MAXFRAME : Nat := if MAXSOCKBUFF < 0xffff - 1 then MAXSOCKBUFF else 0xffff - 1

theorem MAXFRAME_eq : MAXFRAME = 65534 := rfl

/-- The total length the header at the front of `m` announces. -/
def frameLen (m : List UInt8) : Nat := (beWord m 20).toNat + PkgHead.sizeof

theorem frameLen_append {m later : List UInt8} (hlen : 24 ≤ m.length) :
    frameLen (m ++ later) = frameLen m := by
  rw [frameLen, beWord_append (by omega), frameLen]

/-- A header that announces a body of `2 ^ 32 - 24` bytes. -/
def wrappingHead : List UInt8 := List.replicate 20 0 ++ [255, 255, 255, 232]

/-- The verdict on the front of a stream of requests. -/
def pkgFront (m : List UInt8) : Front :=
  if m.length < PkgHead.sizeof then .more
  else if frameLen m > MAXFRAME then .bad
  else if frameLen m > m.length then .more
  else .frame (frameLen m)

theorem pkgFront_eq_frame {m : List UInt8} {n : Nat} :
    pkgFront m = .frame n ↔
      24 ≤ m.length ∧ n = frameLen m ∧ n ≤ MAXFRAME ∧ n ≤ m.length := by
  unfold pkgFront PkgHead.sizeof
  by_cases hshort : m.length < 24
  · rw [if_pos hshort]
    simp only [reduceCtorEq, false_iff]
    omega
  · rw [if_neg hshort]
    by_cases hmax : frameLen m > MAXFRAME
    · rw [if_pos hmax]
      simp only [reduceCtorEq, false_iff]
      omega
    · rw [if_neg hmax]
      by_cases hpart : frameLen m > m.length
      · rw [if_pos hpart]
        simp only [reduceCtorEq, false_iff]
        omega
      · rw [if_neg hpart, Front.frame.injEq]
        omega

theorem pkgFront_eq_bad {m : List UInt8} :
    pkgFront m = .bad ↔ 24 ≤ m.length ∧ MAXFRAME < frameLen m := by
  unfold pkgFront PkgHead.sizeof
  by_cases hshort : m.length < 24
  · rw [if_pos hshort]
    simp only [reduceCtorEq, false_iff]
    omega
  · rw [if_neg hshort]
    by_cases hmax : frameLen m > MAXFRAME
    · rw [if_pos hmax]
      simp only [true_iff]
      omega
    · rw [if_neg hmax]
      by_cases hpart : frameLen m > m.length
      · rw [if_pos hpart]
        simp only [reduceCtorEq, false_iff]
        omega
      · rw [if_neg hpart]
        simp only [reduceCtorEq, false_iff]
        omega

theorem frameLen_ge (m : List UInt8) : 24 ≤ frameLen m := Nat.le_add_left 24 _

/-- The framing of requests. -/
def pkgFramer : Framer UInt8 where
  front := pkgFront
  frame_pos := by
    intro bs n hn
    obtain ⟨-, rfl, -, -⟩ := pkgFront_eq_frame.mp hn
    have hge := frameLen_ge bs
    omega
  frame_le := by
    intro bs n hn
    exact (pkgFront_eq_frame.mp hn).2.2.2
  frame_append := by
    intro bs n later hn
    obtain ⟨hlen, rfl, hmax, hle⟩ := pkgFront_eq_frame.mp hn
    apply pkgFront_eq_frame.mpr
    rw [frameLen_append hlen, List.length_append]
    exact ⟨by omega, rfl, hmax, by omega⟩
  bad_append := by
    intro bs later hbad
    obtain ⟨hlen, hmax⟩ := pkgFront_eq_bad.mp hbad
    apply pkgFront_eq_bad.mpr
    rw [frameLen_append hlen, List.length_append]
    exact ⟨by omega, hmax⟩

/-- Bytes behind a complete frame do not change it. -/
theorem pkgFront_append {bytes : List UInt8} {size : Nat} (later : List UInt8)
    (hfront : pkgFront bytes = .frame size) : pkgFront (bytes ++ later) = .frame size :=
  pkgFramer.frame_append later hfront

end MyGenSvr.Ports
