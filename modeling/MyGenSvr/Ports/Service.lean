import MyGenSvr.Ports.RoundTrip
import MyGenSvr.Ports.PkgHead

/-!
# `service::DealService`

The request handler.  It is given the memory a request starts at (`ptrReq`),
not just the request: the archive decoder scans for a terminator and may look
past the end of the body.  Accesses outside the acknowledgement buffer are
`none`.

## Main results

* `DealService_eq` — the acknowledgement is the frame `replyFrame`, which needs
  of the body only whether it decodes.
* `decodes3005_iff` — whether it decodes, for every memory behind it.
* `decodes3005_eq` — when the scan comes back with an `int`, a condition on the
  bytes of the body alone.
-/

namespace MyGenSvr.Ports

open MyGenSvr.Verified.ByteOrder
open MyGenSvr.Verified.Buffer

/-- Message types and error codes of `MyDef.h`. -/
def MSGTYPE_GETUSERALIAS : UInt32 := 3005

def ERROR_MSGTYPE : Int := 1

def ERROR_PARAM : Int := 2

/-- The conversion of an `int` to `unsigned int`. -/
def toUInt32 (n : Int) : UInt32 := UInt32.ofNat (n % 2 ^ 32).toNat

/-- `makeMiniAck`: the body of an error acknowledgement and its length. -/
def makeMiniAck (h : Host) (iErrorCode : Int) (ptrPkgBodyAck : List UInt8) :
    Option (List UInt8 × Int) :=
  let uiErrorcode := UInt16.ofNat (iErrorCode % 2 ^ 16).toNat
  (store ptrPkgBodyAck 0 (h.endian.image 2 uiErrorcode.toNat)).map fun m => (m, 2)

/-- The acknowledgement every decodable request gets: code 0, `"13800138000"`
and `"userAlias_111"`. -/
def archv3005Ack : Archv3005Ack where
  errorCode := 0
  userNumber := [49, 51, 56, 48, 48, 49, 51, 56, 48, 48, 48]
  userAlias := [117, 115, 101, 114, 65, 108, 105, 97, 115, 95, 49, 49, 49]

/-- The serializer over a request body, and what it extracts from it. -/
def load3005 (h : Host) (ptrPkgBodyReq : List UInt8) (iPkgBodyReqLen : Int) :
    Serializer × Archv3005Req :=
  Archv3005Req.load h
    (.new (.ofData ptrPkgBodyReq (toUInt32 iPkgBodyReqLen) (toUInt32 iPkgBodyReqLen)) true)
    .init

/-- `func3005`. -/
def func3005 (h : Host) (ptrPkgBodyReq : List UInt8) (iPkgBodyReqLen : Int)
    (ptrPkgBodyAck : List UInt8) (iMaxPkgBodyAckLen : Int) :
    Option (List UInt8 × Int) :=
  let s := (load3005 h ptrPkgBodyReq iPkgBodyReqLen).1
  if s.iError ≠ 0 then makeMiniAck h ERROR_PARAM ptrPkgBodyAck
  else
    let s := s.setDataBuffer (.ofData ptrPkgBodyAck (toUInt32 iMaxPkgBodyAckLen) 0)
    let s := archv3005Ack.save h s
    some (s.pBuffer.pData, toInt32 s.pBuffer.getDataSize.toNat)

/-- `DealService`: the acknowledgement buffer and the length of the
acknowledgement in it. -/
def DealService (h : Host) (ptrReq : List UInt8) (iReqSize : Int)
    (ptrAck : List UInt8) : Option (List UInt8 × Int) := do
  let pkgHeadReq ← PkgHead.unpacket h ptrReq true
  let (body, iAckBodySize) ←
    if pkgHeadReq.uiMsgType = MSGTYPE_GETUSERALIAS then
      func3005 h (ptrReq.drop PkgHead.sizeof) (toInt32 (iReqSize - PkgHead.sizeof))
        (ptrAck.drop PkgHead.sizeof) (MAXSOCKBUFF - PkgHead.sizeof)
    else makeMiniAck h ERROR_MSGTYPE (ptrAck.drop PkgHead.sizeof)
  let pkgHeadAck := { pkgHeadReq with uiPkgBodyLen := toUInt32 iAckBodySize }
  let ptrAck ← pkgHeadAck.packet h (ptrAck.take PkgHead.sizeof ++ body) true
  return (ptrAck, toInt32 (PkgHead.sizeof + iAckBodySize))

/-! ## The acknowledgement -/

/-- Whether a body said to have `n` bytes, at the front of `m`, decodes. -/
def decodes3005 (h : Host) (m : List UInt8) (n : Int) : Bool :=
  decide ((load3005 h m n).1.iError = 0)

/-- The body of an error acknowledgement. -/
def miniAck (h : Host) (iErrorCode : Nat) : List UInt8 := h.endian.image 2 iErrorCode

/-- The body of the acknowledgement of a request of a given type. -/
def replyBody (h : Host) (uiMsgType : UInt32) (decodes : Bool) : List UInt8 :=
  if uiMsgType = MSGTYPE_GETUSERALIAS then
    if decodes then archv3005Ack.wire h true else miniAck h 2
  else miniAck h 1

/-- The acknowledgement frame: the header of the request with another body
length, and the body. -/
def replyFrame (h : Host) (pkgHeadReq : PkgHead) (decodes : Bool) : List UInt8 :=
  let body := replyBody h pkgHeadReq.uiMsgType decodes
  { pkgHeadReq with uiPkgBodyLen := UInt32.ofNat body.length }.image ++ body

theorem archv3005Ack_wire_length (h : Host) :
    (archv3005Ack.wire h true).length = 28 :=
  Archv3005Ack.wire_length h true archv3005Ack

theorem replyBody_length_le (h : Host) (uiMsgType : UInt32) (decodes : Bool) :
    (replyBody h uiMsgType decodes).length ≤ 28 := by
  have hmini : ∀ code, (miniAck h code).length = 2 := h.endian.image_length 2
  unfold replyBody
  split
  · split
    · exact (archv3005Ack_wire_length h).le
    · rw [hmini]
      decide
  · rw [hmini]
    decide

theorem replyBody_length_ge (h : Host) (uiMsgType : UInt32) (decodes : Bool) :
    2 ≤ (replyBody h uiMsgType decodes).length := by
  have hmini : ∀ code, (miniAck h code).length = 2 := h.endian.image_length 2
  unfold replyBody
  split
  · split
    · rw [archv3005Ack_wire_length]
      decide
    · exact (hmini 2).ge
  · exact (hmini 1).ge

theorem replyFrame_length (h : Host) (p : PkgHead) (decodes : Bool) :
    (replyFrame h p decodes).length =
      24 + (replyBody h p.uiMsgType decodes).length := by
  rw [replyFrame, List.length_append, PkgHead.image_length]

theorem toUInt32_ofNat (n : Nat) : toUInt32 n = UInt32.ofNat n := by
  have hmod : ((n : Int) % 2 ^ 32).toNat = n % 2 ^ 32 := by omega
  apply UInt32.toNat_inj.mp
  rw [toUInt32, hmod, UInt32.toNat_ofNat', UInt32.toNat_ofNat', Nat.mod_mod]

theorem makeMiniAck_eq (h : Host) {code : Nat} (hcode : code < 2 ^ 16)
    {m : List UInt8} (hm : 2 ≤ m.length) :
    makeMiniAck h code m =
      some (splice m 0 (miniAck h code), ((miniAck h code).length : Int)) := by
  have hcast : (UInt16.ofNat ((code : Int) % 2 ^ 16).toNat).toNat = code := by
    rw [UInt16.toNat_ofNat']
    omega
  have hlen : (h.endian.image 2 code).length = 2 := h.endian.image_length 2 code
  simp only [makeMiniAck, hcast, miniAck, hlen]
  rw [store_eq_some (by omega)]
  rfl

theorem load3005_changeByteOrder (h : Host) (m : List UInt8) (n : Int) :
    (load3005 h m n).1.changeByteOrder = true := by
  unfold load3005 Archv3005Req.load
  dsimp only
  rw [entryGet_changeByteOrder (getScalar_changeByteOrder h .byte),
    entryGet_changeByteOrder getString_changeByteOrder]
  rfl

/-- **The success body** in an empty acknowledgement buffer. -/
theorem archv3005Ack_save (h : Host) {s : Serializer} {ack : List UInt8}
    (hack : ack.length = 65511) (herr : s.iError = 0) (hc : s.changeByteOrder = true)
    (hbuf : s.pBuffer = .ofData ack 65511 0) :
    (archv3005Ack.save h s).pBuffer.pData = splice ack 0 (archv3005Ack.wire h true) ∧
      toInt32 (archv3005Ack.save h s).pBuffer.getDataSize.toNat =
        ((archv3005Ack.wire h true).length : Int) := by
  have hord : Ordered s.pBuffer := by
    rw [hbuf]
    exact ⟨Nat.le_refl _, Nat.zero_le _, hack.ge⟩
  have hlen := archv3005Ack_wire_length h
  obtain ⟨-, happ⟩ := Archv3005Ack.save_appends h archv3005Ack hord herr (by
    rw [hc, hlen, hbuf]
    show 0 + 28 ≤ 65511
    decide)
  rw [hc] at happ
  have hsize := happ.ordered.getDataSize_toNat
  rw [happ.ordered.unread_length, happ.write_eq, happ.read_eq, hbuf] at hsize
  have hdata := happ.data_eq
  rw [hbuf] at hdata
  refine ⟨hdata, ?_⟩
  have hsize' : (archv3005Ack.save h s).pBuffer.getDataSize.toNat = 28 := by
    rw [hsize, hlen]
    rfl
  rw [hsize', hlen]
  rfl

/-- **`func3005`** writes the body its decoding outcome asks for. -/
theorem func3005_eq (h : Host) (m : List UInt8) (n : Int) {ack : List UInt8}
    (hack : ack.length = 65511) :
    func3005 h m n ack 65511 =
      some (splice ack 0 (replyBody h MSGTYPE_GETUSERALIAS (decodes3005 h m n)),
        ((replyBody h MSGTYPE_GETUSERALIAS (decodes3005 h m n)).length : Int)) := by
  have hc := load3005_changeByteOrder h m n
  unfold func3005 decodes3005
  obtain ⟨s, hs⟩ : ∃ s, s = (load3005 h m n).1 := ⟨_, rfl⟩
  rw [← hs] at hc ⊢
  by_cases herr : s.iError = 0
  · have hbody : replyBody h MSGTYPE_GETUSERALIAS (decide (s.iError = 0)) =
        archv3005Ack.wire h true := by
      simp [replyBody, herr]
    obtain ⟨hdata, hsize⟩ := @archv3005Ack_save h (s.setDataBuffer (.ofData ack 65511 0))
      ack hack herr hc rfl
    rw [if_neg (not_not_intro herr), hbody, ← hdata, ← hsize]
    rfl
  · have hbody : replyBody h MSGTYPE_GETUSERALIAS (decide (s.iError = 0)) = miniAck h 2 := by
      simp [replyBody, herr]
    rw [if_pos herr, hbody]
    exact makeMiniAck_eq h (by decide) (by omega)

theorem drop_sizeof_length {ack : List UInt8} (hack : ack.length = MAXSOCKBUFF) :
    (ack.drop PkgHead.sizeof).length = 65511 := by
  rw [List.length_drop, hack]
  rfl

/-- A body behind a header of the same buffer. -/
theorem head_and_body {ack : List UInt8} (hack : ack.length = MAXSOCKBUFF)
    {head : List UInt8} (hhead : head.length = 24) (body : List UInt8) :
    splice (ack.take PkgHead.sizeof ++ splice (ack.drop PkgHead.sizeof) 0 body) 0 head =
      splice ack 0 (head ++ body) := by
  have htake : (ack.take PkgHead.sizeof).length = 24 := by
    rw [List.length_take, hack]
    rfl
  have hrest : (ack.take PkgHead.sizeof ++ splice (ack.drop PkgHead.sizeof) 0 body).drop
      head.length = splice (ack.drop PkgHead.sizeof) 0 body := by
    rw [hhead, ← htake, List.drop_left]
  rw [splice_zero, hrest, splice_zero, splice_zero, List.drop_drop, List.length_append,
    hhead, List.append_assoc]
  rfl

/-- **`DealService`** fills the front of the acknowledgement buffer with the
reply frame of the request, and nothing else of it changes. -/
theorem DealService_eq (h : Host) {ptrReq ptrAck frame : List UInt8} {iReqSize : Int}
    (hreq : 24 ≤ ptrReq.length) (hack : ptrAck.length = MAXSOCKBUFF)
    (hframe : frame = replyFrame h (.ofBytes ptrReq)
      (decodes3005 h (ptrReq.drop PkgHead.sizeof)
        (toInt32 (iReqSize - PkgHead.sizeof)))) :
    DealService h ptrReq iReqSize ptrAck =
      some (splice ptrAck 0 frame, (frame.length : Int)) := by
  have hsize : (MAXSOCKBUFF : Int) - (PkgHead.sizeof : Int) = 65511 := rfl
  have hbody : ∀ (head : PkgHead) (body : List UInt8), body.length ≤ 28 →
      (do
        let ptrAck ← PkgHead.packet h { head with uiPkgBodyLen := toUInt32 body.length }
          (ptrAck.take PkgHead.sizeof ++ splice (ptrAck.drop PkgHead.sizeof) 0 body) true
        return (ptrAck, toInt32 ((PkgHead.sizeof : Int) + (body.length : Int)))) =
      some (splice ptrAck 0
        ({ head with uiPkgBodyLen := UInt32.ofNat body.length }.image ++ body),
          (({ head with uiPkgBodyLen := UInt32.ofNat body.length }.image ++ body).length :
            Int)) := by
    intro head body hle
    have hlen : 24 ≤ (ptrAck.take PkgHead.sizeof ++
        splice (ptrAck.drop PkgHead.sizeof) 0 body).length := by
      rw [List.length_append, List.length_take, hack]
      exact Nat.le_add_right _ _
    have hcast : (PkgHead.sizeof : Int) + (body.length : Int) =
        ((24 + body.length : Nat) : Int) := rfl
    rw [packet_net h _ hlen, head_and_body hack (PkgHead.image_length _) body,
      toUInt32_ofNat, hcast, toInt32_of_lt (by omega), List.length_append,
      PkgHead.image_length]
    rfl
  have hdeal := hbody (.ofBytes ptrReq)
    (replyBody h (PkgHead.ofBytes ptrReq).uiMsgType
      (decodes3005 h (ptrReq.drop PkgHead.sizeof)
        (toInt32 (iReqSize - PkgHead.sizeof)))) (replyBody_length_le h _ _)
  rw [DealService, unpacket_net h hreq]
  simp only [Option.bind_eq_bind, Option.bind_some]
  by_cases htype : (PkgHead.ofBytes ptrReq).uiMsgType = MSGTYPE_GETUSERALIAS
  · rw [if_pos htype, hsize, func3005_eq h _ _ (drop_sizeof_length hack)]
    rw [htype] at hdeal
    simp only [Option.bind_some]
    rw [hframe, replyFrame, htype]
    exact hdeal
  · have hmini : ∀ decodes, replyBody h (PkgHead.ofBytes ptrReq).uiMsgType decodes =
        miniAck h 1 := by
      intro decodes
      rw [replyBody, if_neg htype]
    rw [hmini] at hdeal
    have hlen := drop_sizeof_length hack
    have hack1 := @makeMiniAck_eq h 1 (by decide) (ptrAck.drop PkgHead.sizeof) (by omega)
    rw [if_neg htype, show ERROR_MSGTYPE = ((1 : Nat) : Int) from rfl, hack1]
    simp only [Option.bind_some]
    rw [hframe, replyFrame, hmini]
    exact hdeal

/-! ## When a request body decodes -/

/-- What a body of `n` bytes at the front of `m` comes to: the scan from its first
byte gives an `int`, and after the string of that length and its terminator a
byte is left; a length that is not positive leaves the whole body. -/
def decodable3005 (m : List UInt8) (n : Nat) : Bool :=
  decide ((toInt32 (strlen m) ≤ 0 ∧ 1 ≤ n) ∨
    (0 < toInt32 (strlen m) ∧ toInt32 (strlen m) + 2 ≤ n))

/-- A byte extracted from a buffer with `n` unread bytes. -/
theorem getByte_iError (h : Host) {s : Serializer} (ho : Ordered s.pBuffer) (value : UInt8) :
    (s.getScalar h .byte value).1.iError = 0 ↔ 1 ≤ s.pBuffer.unread.length := by
  by_cases hone : 1 ≤ s.pBuffer.unread.length
  · rw [getScalar_of_le h .byte ho value hone, ok_iError]
    exact iff_of_true rfl hone
  · rw [getScalar_of_lt h .byte ho value (Nat.not_le.mp hone), setError_iError]
    exact iff_of_false (by decide) hone

/-- **When a string extraction moves**: from the start of a buffer, the string and its
terminator must lie among the unread bytes. -/
theorem skipString_eq {b : DataBuffer} (ho : Ordered b) (hstart : b.pRead = 0)
    (hpos : 0 < b.lenToRead) (hsmall : b.unread.length < 2 ^ 31) :
    b.skipString =
      if b.lenToRead + 1 ≤ b.unread.length then
        some { b with pRead := b.pRead + (b.lenToRead.toNat + 1) }
      else none := by
  have hdata := ho.getDataSize_toNat
  rw [DataBuffer.skipString, hdata]
  by_cases hfit : b.lenToRead + 1 ≤ b.unread.length
  · have hnat : toInt32 (b.lenToRead + 1) = ((b.lenToRead.toNat + 1 : Nat) : Int) := by
      rw [toInt32_of_range (by omega) (by omega)]
      omega
    rw [if_neg (by omega), if_pos hfit, hnat, moveReadPtr_eq ho, if_pos (by omega)]
  · rw [if_neg hfit]
    by_cases hover : b.lenToRead > b.unread.length
    · rw [if_pos hover]
    · -- the string ends where the body does, and its terminator lies behind
      have hmove : b.moveReadPtr (toInt32 (b.lenToRead + 1)) = none := by
        by_cases hmax : b.lenToRead + 1 < 2 ^ 31
        · have hnat : toInt32 (b.lenToRead + 1) = ((b.lenToRead.toNat + 1 : Nat) : Int) := by
            rw [toInt32_of_range (by omega) hmax]
            omega
          rw [hnat, moveReadPtr_eq ho, if_neg (by omega)]
        · have hwrap : b.lenToRead + 1 = 2 ^ 31 := by omega
          rw [hwrap, DataBuffer.moveReadPtr, hstart,
            if_neg (fun htest => absurd htest.1 (by decide))]
      rw [if_neg hover, hmove]

/-- **When a body decodes**, for every memory behind it. -/
theorem decodes3005_iff (h : Host) {m : List UInt8} {n : Nat} (hn : n ≤ m.length)
    (hn31 : n < 2 ^ 31) : decodes3005 h m n = decodable3005 m n := by
  have hsize : (UInt32.ofNat n).toNat = n := toNat_ofNat32 (by omega)
  obtain ⟨s, hs⟩ : ∃ s, s = Serializer.new
      (.ofData m (UInt32.ofNat n) (UInt32.ofNat n)) true := ⟨_, rfl⟩
  have ho : Ordered s.pBuffer := by
    rw [hs]
    exact ofData_ordered (by rwa [hsize])
  have hread : s.pBuffer.getReadPtr = m := by
    rw [hs]
    rfl
  have hlen : s.pBuffer.unread.length = n := by
    rw [ho.unread_length, hs]
    exact hsize
  have hstart : s.pBuffer.pRead = 0 := by
    rw [hs]
    rfl
  have herr : s.iError = 0 := by
    rw [hs]
    rfl
  have hload := Archv3005Req.load_of_ok herr Archv3005Req.init (h := h)
  rw [decodes3005, decodable3005, load3005, toUInt32_ofNat, ← hs, hload, decide_eq_decide]
  dsimp only
  obtain ⟨k, hk⟩ : ∃ k, k = toInt32 (strlen m) := ⟨_, rfl⟩
  rw [← hk]
  by_cases hpos : 0 < k
  · have hscan : s.pBuffer.lenToRead = k := by
      rw [DataBuffer.lenToRead, hread, hk]
    have hstep := getString_settle (s := s) (by rw [hscan]; exact hpos)
      Archv3005Req.init.userNumber
    have hskip := skipString_eq ho hstart (by rw [hscan]; exact hpos) (by rw [hlen]; exact hn31)
    rw [hscan, hlen] at hskip
    rw [hskip] at hstep
    by_cases hfit : k + 1 ≤ n
    · rw [if_pos hfit] at hstep
      have ho' := ho.advance (n := k.toNat + 1) (by omega)
      have hrest : (s.ok { s.pBuffer with
          pRead := s.pBuffer.pRead + (k.toNat + 1) }).pBuffer.unread.length =
          n - (k.toNat + 1) := by
        rw [ok_pBuffer, unread_advance, List.length_drop, hlen]
      rw [hstep]
      simp only [Serializer.settle]
      rw [entryGet_of_ok _ (ok_iError _ _), getByte_iError h ho', hrest]
      omega
    · rw [if_neg hfit] at hstep
      rw [hstep]
      simp only [Serializer.settle]
      rw [entryGet_of_error _ (by simp)]
      simp only [setError_iError]
      omega
  · have hneg : toInt32 (strlen s.pBuffer.getReadPtr) ≤ 0 := by
      rw [hread, ← hk]
      omega
    rw [getString_nonpos _ hneg, entryGet_of_ok _ herr, getByte_iError h ho, hlen]
    omega

/-- The bodies that decode: there is a terminator, and either it is at the
front (and then also taken for the operation type) or a byte follows it. -/
def accepts3005 (body : List UInt8) : Bool :=
  decide ((0 : UInt8) ∈ body ∧ (strlen body = 0 ∨ strlen body + 2 ≤ body.length))

/-- **Whether a body decodes is decided by the body**, if the scan over the
memory behind it comes back with an `int`. -/
theorem decodes3005_eq (h : Host) {m : List UInt8} {n : Nat} (hn : n ≤ m.length)
    (hn31 : n + 1 < 2 ^ 31) (hscan : strlen m < 2 ^ 31) :
    decodes3005 h m n = accepts3005 (m.take n) := by
  have hlen : (m.take n).length = n := by
    rw [List.length_take, Nat.min_eq_left hn]
  have hsplit := strlen_append (m.take n) (m.drop n)
  rw [List.take_append_drop, hlen] at hsplit
  rw [decodes3005_iff h hn (by omega), decodable3005, accepts3005, decide_eq_decide,
    toInt32_of_lt hscan, hlen]
  by_cases hnul : (0 : UInt8) ∈ m.take n
  · have hlt := strlen_lt_of_mem hnul
    rw [if_pos hnul] at hsplit
    simp only [hnul, true_and]
    omega
  · rw [if_neg hnul] at hsplit
    simp only [hnul, false_and, iff_false]
    omega

/-- A scan that comes back as a negative `int` is taken for the empty string, so
that any body of a byte or more decodes. -/
theorem decodes3005_runaway (h : Host) {m : List UInt8} {n : Nat} (hn : n ≤ m.length)
    (hpos : 1 ≤ n) (hn31 : n < 2 ^ 31) (hlow : 2 ^ 31 ≤ strlen m) (hhigh : strlen m < 2 ^ 32) :
    decodes3005 h m n = true := by
  have hneg : toInt32 (strlen m) ≤ 0 := by
    rw [toInt32]
    split <;> omega
  rw [decodes3005_iff h hn hn31]
  exact decide_eq_true (Or.inl ⟨hneg, hpos⟩)

end MyGenSvr.Ports
