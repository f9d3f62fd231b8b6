import MyGenSvr.Ports.HandleRead

/-!
# The acknowledgement of a request

What `DealService` leaves in the acknowledgement buffer, read as a client reads
it: six big-endian words, and a body whose first two bytes are the error code.
The header is right for every request.  The error code goes out through two
encoders: the `Serializer`, which converts it to network order, and the `memcpy`
of `makeMiniAck`, which does not.

## Main results

* `acknowledgement_well_formed` — the header of every acknowledgement.
* `error_code_network_order_iff` — when its error code is in network order.
-/

namespace MyGenSvr.Ports

open MyGenSvr.Verified.ByteOrder
open MyGenSvr.Verified.Buffer
open MyGenSvr.Verified.Framing

section Acknowledged

variable {h : Host} {frame after ptrAck : List UInt8} {p : PkgHead}

/-- The header of a frame in memory. -/
theorem ofBytes_of_unpacket (hp : PkgHead.unpacket h frame true = some p)
    (hlen : frame.length = PkgHead.sizeof + p.uiPkgBodyLen.toNat) :
    24 ≤ frame.length ∧ PkgHead.ofBytes (frame ++ after) = p := by
  have hle : 24 ≤ frame.length := by
    rw [hlen]
    exact Nat.le_add_right _ _
  rw [unpacket_net h hle, Option.some.injEq] at hp
  exact ⟨hle, by rw [PkgHead.ofBytes_append hle, hp]⟩

/-- **What `DealService` leaves**: the reply frame, with its length. -/
theorem DealService_frame (hp : PkgHead.unpacket h frame true = some p)
    (hlen : frame.length = PkgHead.sizeof + p.uiPkgBodyLen.toNat)
    (hack : ptrAck.length = MAXSOCKBUFF) :
    ∃ decodes, decodes = decodes3005 h ((frame ++ after).drop PkgHead.sizeof)
        (toInt32 (frame.length - PkgHead.sizeof)) ∧
      DealService h (frame ++ after) frame.length ptrAck =
        some (splice ptrAck 0 (replyFrame h p decodes),
          ((replyFrame h p decodes).length : Int)) := by
  obtain ⟨hle, hhead⟩ := @ofBytes_of_unpacket h frame after p hp hlen
  refine ⟨_, rfl, ?_⟩
  apply DealService_eq h _ hack
  · rw [hhead]
  · rw [List.length_append]
    omega

end Acknowledged

/-! ## The header -/

/-- The length of the acknowledgement in its header. -/
theorem ackBodyLen_toNat (h : Host) (uiMsgType : UInt32) (decodes : Bool) :
    (UInt32.ofNat (replyBody h uiMsgType decodes).length).toNat =
      (replyBody h uiMsgType decodes).length := by
  have hbody := replyBody_length_le h uiMsgType decodes
  exact toNat_ofNat32 (by omega)

/-- The header an acknowledgement starts with. -/
theorem replyFrame_head (h : Host) (p : PkgHead) (decodes : Bool) (rest : List UInt8) :
    PkgHead.ofBytes (replyFrame h p decodes ++ rest) =
      { p with uiPkgBodyLen := UInt32.ofNat (replyBody h p.uiMsgType decodes).length } := by
  rw [replyFrame, List.append_assoc]
  exact PkgHead.ofBytes_image _ _

/-- **An acknowledgement is a frame.** -/
theorem replyFrame_front (h : Host) (p : PkgHead) (decodes : Bool) :
    frameLen (replyFrame h p decodes) = (replyFrame h p decodes).length := by
  have hhead := congrArg PkgHead.uiPkgBodyLen (replyFrame_head h p decodes [])
  rw [List.append_nil] at hhead
  have hword : beWord (replyFrame h p decodes) 20 =
      UInt32.ofNat (replyBody h p.uiMsgType decodes).length := hhead
  rw [frameLen, hword, ackBodyLen_toNat, replyFrame_length]
  exact Nat.add_comm _ _

/-- **Every acknowledgement is well formed.**  For every request frame `DealService`
leaves an acknowledgement of at least a header and at most `MAXSOCKBUFF` bytes; its
header repeats that of the request with the length of its own body; and a
connection that has it buffered finds it whole and dispatches it. -/
theorem acknowledgement_well_formed (h : Host) (frame after ptrAck : List UInt8) (p : PkgHead)
    (hp : PkgHead.unpacket h frame true = some p)
    (hlen : frame.length = PkgHead.sizeof + p.uiPkgBodyLen.toNat)
    (hack : ptrAck.length = MAXSOCKBUFF) :
    ∃ ack iAckSize q, DealService h (frame ++ after) frame.length ptrAck =
        some (ack, iAckSize) ∧
      (24 : Int) ≤ iAckSize ∧ iAckSize ≤ MAXSOCKBUFF ∧
      PkgHead.unpacket h (ack.take 24) true = some q ∧
      q.uiSrc = p.uiSrc ∧ q.uiExtSrc = p.uiExtSrc ∧ q.uiVersion = p.uiVersion ∧
      q.uiMsgType = p.uiMsgType ∧ q.uiSeq = p.uiSeq ∧
      (q.uiPkgBodyLen.toNat : Int) = iAckSize - 24 ∧
      ∀ (b : Buffers) (c : SockConn), b.Sized → Holds c (ack.take iAckSize.toNat) →
        ∃ c' b' n, HandleBuffered h b c = some (.reply c' b' iAckSize n) ∧ Holds c' [] := by
  obtain ⟨decodes, -, hdeal⟩ := @DealService_frame h frame after ptrAck p hp hlen hack
  obtain ⟨reply, hreply⟩ : ∃ reply, reply = replyFrame h p decodes := ⟨_, rfl⟩
  have hlong := replyFrame_length h p decodes
  have hbody := replyBody_length_le h p.uiMsgType decodes
  have hfront := replyFrame_front h p decodes
  have hhead := replyFrame_head h p decodes []
  have hword := ackBodyLen_toNat h p.uiMsgType decodes
  have hsock : MAXSOCKBUFF = 65535 := rfl
  rw [List.append_nil] at hhead
  rw [← hreply] at hdeal hlong hfront hhead
  refine ⟨_, _, { p with uiPkgBodyLen := UInt32.ofNat (replyBody h p.uiMsgType decodes).length },
    hdeal, by omega, by omega, ?_, rfl, rfl, rfl, rfl, rfl, ?_, ?_⟩
  · have htake : (reply.take 24).length = 24 := by
      rw [List.length_take]
      omega
    have hsplit := @PkgHead.ofBytes_append _ (reply.drop 24) (Nat.le_of_eq htake.symm)
    rw [List.take_append_drop, hhead] at hsplit
    rw [splice_zero, List.take_append_of_le_length (by omega),
      unpacket_net h (Nat.le_of_eq htake.symm), hsplit]
  · dsimp only
    omega
  · intro b c hb hc
    rw [Int.toNat_natCast, splice_zero, List.take_left] at hc
    have htotal : h.sizeT (frameLen reply) = reply.length := by
      rw [hfront]
      apply Host.sizeT_of_lt
      rcases h.sizeBits_eq with hbits | hbits <;> rw [hbits] <;> omega
    obtain ⟨c', b', hbuf, hc', -⟩ :=
      HandleBuffered_dispatch hb hc (by omega) htotal (by rw [MAXFRAME_eq]; omega)
        (Nat.le_refl _)
    rw [List.drop_length] at hc'
    exact ⟨c', b', _, hbuf, hc'⟩

/-- A request of type 3005 for the user `7`. -/
def frame3005 : List UInt8 :=
  [0, 0, 0, 1, 0, 0, 0, 2, 0, 0, 0, 3, 0, 0, 11, 189, 0, 0, 1, 4, 0, 0, 0, 3, 55, 0, 1]

/-- Its acknowledgement repeats the header. -/
theorem acknowledgement_well_formed_user :
    ∃ ack iAckSize q, DealService .x86_64 (frame3005 ++ [9]) 27
        (List.replicate MAXSOCKBUFF 0) = some (ack, iAckSize) ∧
      (24 : Int) ≤ iAckSize ∧ PkgHead.unpacket .x86_64 (ack.take 24) true = some q ∧
      q.uiSrc = 1 ∧ q.uiExtSrc = 2 ∧ q.uiVersion = 3 ∧ q.uiMsgType = 3005 ∧ q.uiSeq = 260 ∧
      (q.uiPkgBodyLen.toNat : Int) = iAckSize - 24 := by
  obtain ⟨ack, iAckSize, q, hdeal, hlow, -, hq, hsrc, hext, hversion, htype, hseq, hbody, -⟩ :=
    acknowledgement_well_formed .x86_64 frame3005 [9] (List.replicate MAXSOCKBUFF 0)
      ⟨1, 2, 3, 3005, 260, 3⟩ (by decide) rfl List.length_replicate
  exact ⟨ack, iAckSize, q, hdeal, hlow, hq, hsrc, hext, hversion, htype, hseq, hbody⟩

/-! ## The error code -/

/-- The error code of an acknowledgement, extracted from its body on host `h'` by a
`Serializer` that changes the byte order. -/
def readErrorCode (h' : Host) (ack : List UInt8) (iAckSize : Int) : Serializer × UInt16 :=
  let size := toUInt32 (iAckSize - PkgHead.sizeof)
  (Serializer.new (.ofData (ack.drop PkgHead.sizeof) size size) true).getScalar h' .uInt16
    (0 : UInt16)

/-- The code that tells what became of a request. -/
def errorCodeOf (uiMsgType : UInt32) (decodes : Bool) : UInt16 :=
  if uiMsgType = MSGTYPE_GETUSERALIAS then
    if decodes then 0 else 2
  else 1

/-- The acknowledgement of `frame`, a request with header `p`, tells a reader on
host `h'` what became of it. -/
def TellsOutcome (h h' : Host) (frame after ptrAck : List UInt8) (p : PkgHead) : Prop :=
  ∃ ack iAckSize, DealService h (frame ++ after) frame.length ptrAck = some (ack, iAckSize) ∧
    (readErrorCode h' ack iAckSize).1.iError = 0 ∧
    (readErrorCode h' ack iAckSize).2 = errorCodeOf p.uiMsgType
      (decodes3005 h ((frame ++ after).drop PkgHead.sizeof) (frame.length - PkgHead.sizeof))

/-- An extraction in network order reads two bytes big-endian on every host. -/
theorem getUInt16_net (h : Host) {s : Serializer} (ho : Ordered s.pBuffer)
    (hmode : s.changeByteOrder = true) (value : UInt16) (htwo : 2 ≤ s.pBuffer.unread.length) :
    (s.getScalar h .uInt16 value).1.iError = 0 ∧
      (s.getScalar h .uInt16 value).2 = UInt16.ofNat (ofBeBytes (s.pBuffer.unread.take 2)) := by
  have hlen : (s.pBuffer.unread.take 2).length = 2 := by
    rw [List.length_take, Nat.min_eq_left htwo]
  have hvalue := h.endian.hton_value (s.pBuffer.unread.take 2)
  rw [hlen] at hvalue
  rw [getScalar_of_le h .uInt16 ho value htwo, hmode]
  exact ⟨rfl, congrArg UInt16.ofNat hvalue⟩

/-- The body of a reply frame in the acknowledgement buffer. -/
theorem replyFrame_body (h : Host) (p : PkgHead) (decodes : Bool) (ptrAck : List UInt8) :
    (splice ptrAck 0 (replyFrame h p decodes)).drop PkgHead.sizeof =
      replyBody h p.uiMsgType decodes ++ ptrAck.drop (replyFrame h p decodes).length := by
  obtain ⟨q, hq⟩ : ∃ q : PkgHead, q =
      { p with uiPkgBodyLen := UInt32.ofNat (replyBody h p.uiMsgType decodes).length } := ⟨_, rfl⟩
  have hframe : replyFrame h p decodes = q.image ++ replyBody h p.uiMsgType decodes := by
    rw [hq, replyFrame]
  rw [splice_zero, hframe, List.append_assoc]
  exact List.drop_left' q.image_length

/-- What is read as the error code of a reply frame. -/
theorem readErrorCode_replyFrame (h h' : Host) (p : PkgHead) (decodes : Bool)
    (ptrAck : List UInt8) :
    let r := readErrorCode h' (splice ptrAck 0 (replyFrame h p decodes))
      ((replyFrame h p decodes).length : Int)
    r.1.iError = 0 ∧
      r.2 = UInt16.ofNat (ofBeBytes ((replyBody h p.uiMsgType decodes).take 2)) := by
  dsimp only
  have hlong := replyBody_length_le h p.uiMsgType decodes
  have htwo := replyBody_length_ge h p.uiMsgType decodes
  have hsize : ((replyFrame h p decodes).length : Int) - PkgHead.sizeof =
      ((replyBody h p.uiMsgType decodes).length : Int) := by
    rw [replyFrame_length, PkgHead.sizeof]
    omega
  rw [readErrorCode, hsize, toUInt32_ofNat, replyFrame_body]
  obtain ⟨body, hbody⟩ : ∃ body, body = replyBody h p.uiMsgType decodes := ⟨_, rfl⟩
  obtain ⟨rest, hrest⟩ : ∃ rest, rest = ptrAck.drop (replyFrame h p decodes).length := ⟨_, rfl⟩
  rw [← hbody] at hlong htwo
  rw [← hbody, ← hrest]
  have hcast : (UInt32.ofNat body.length).toNat = body.length := toNat_ofNat32 (by omega)
  obtain ⟨b, hb⟩ : ∃ b, b = DataBuffer.ofData (body ++ rest) (UInt32.ofNat body.length)
    (UInt32.ofNat body.length) := ⟨_, rfl⟩
  have hord : Ordered b := by
    rw [hb]
    apply ofData_ordered
    rw [hcast, List.length_append]
    omega
  have hunread : b.unread = body := by
    rw [hb, ofData_unread, hcast, List.take_left]
  rw [← hb, ← hunread]
  rw [← hunread] at htwo
  exact @getUInt16_net h' (.new b true) hord rfl 0 htwo

/-- The first two bytes of the body of a success, on either host. -/
theorem archv3005Ack_wire_code (h : Host) :
    ofBeBytes ((archv3005Ack.wire h true).take 2) = 0 := by
  have hcode : Scalar.uInt16.wire h true archv3005Ack.errorCode = beBytes 2 0 :=
    h.endian.image_hton 2 0
  have htwo : (beBytes 2 0).length = 2 := beBytes_length 2 0
  rw [Archv3005Ack.wire, hcode, List.append_assoc,
    List.take_append_of_le_length htwo.ge, List.take_of_length_le htwo.le, ofBeBytes_beBytes]
  exact Nat.zero_mod _

/-- The error code of an error acknowledgement, read big-endian: the low byte comes
first on a little-endian host. -/
theorem miniAck_code (h : Host) {code : Nat} (hcode : code < 256) :
    ofBeBytes ((miniAck h code).take 2) =
      match h.endian with
      | .little => 256 * code
      | .big => code := by
  have htake : (miniAck h code).take 2 = miniAck h code :=
    List.take_of_length_le (h.endian.image_length 2 code).le
  have hlow : (UInt8.ofNat code).toNat = code := by
    rw [UInt8.toNat_ofNat']
    exact Nat.mod_eq_of_lt hcode
  rw [htake, miniAck]
  cases h.endian with
  | little =>
      have hhigh : code / 256 = 0 := Nat.div_eq_of_lt hcode
      simp only [Endian.image, leBytes, hhigh, ofBeBytes, List.reverse_cons, List.reverse_nil,
        List.nil_append, List.cons_append, ofLeBytes, hlow]
      exact Nat.zero_add _
  | big =>
      dsimp only [Endian.image]
      rw [ofBeBytes_beBytes]
      exact Nat.mod_eq_of_lt (by omega)

/-- **What the first two bytes of a reply body tell**: a success is told on every host,
an error on big-endian ones. -/
theorem replyBody_code_iff (h : Host) (uiMsgType : UInt32) (decodes : Bool) :
    UInt16.ofNat (ofBeBytes ((replyBody h uiMsgType decodes).take 2)) =
        errorCodeOf uiMsgType decodes ↔
      h.endian = .big ∨ (uiMsgType = MSGTYPE_GETUSERALIAS ∧ decodes = true) := by
  by_cases htype : uiMsgType = MSGTYPE_GETUSERALIAS
  · cases decodes with
    | true =>
        rw [replyBody, if_pos htype, if_pos rfl, errorCodeOf, if_pos htype, if_pos rfl,
          archv3005Ack_wire_code]
        exact iff_of_true rfl (Or.inr ⟨htype, rfl⟩)
    | false =>
        rw [replyBody, if_pos htype, if_neg Bool.false_ne_true, errorCodeOf, if_pos htype,
          if_neg Bool.false_ne_true, miniAck_code h (by decide)]
        cases h.endian with
        | little =>
            refine iff_of_false (by decide) ?_
            rintro (hbig | ⟨-, hdec⟩)
            · exact absurd hbig (by decide)
            · exact Bool.false_ne_true hdec
        | big => exact iff_of_true rfl (Or.inl rfl)
  · rw [replyBody, if_neg htype, errorCodeOf, if_neg htype, miniAck_code h (by decide)]
    simp only [htype, false_and, or_false]
    cases h.endian with
    | little => decide
    | big => decide

/-- The outcome is told if the server is big-endian or the request was accepted. -/
theorem tellsOutcome_iff (h h' : Host) {frame after ptrAck : List UInt8} {p : PkgHead}
    (hp : PkgHead.unpacket h frame true = some p)
    (hlen : frame.length = PkgHead.sizeof + p.uiPkgBodyLen.toNat)
    (hint : frame.length < 2 ^ 31) (hack : ptrAck.length = MAXSOCKBUFF) :
    TellsOutcome h h' frame after ptrAck p ↔
      h.endian = .big ∨ (p.uiMsgType = MSGTYPE_GETUSERALIAS ∧
        decodes3005 h ((frame ++ after).drop PkgHead.sizeof) p.uiPkgBodyLen.toNat = true) := by
  obtain ⟨decodes, hdec, hdeal⟩ := @DealService_frame h frame after ptrAck p hp hlen hack
  have hbody : (frame.length : Int) - PkgHead.sizeof = p.uiPkgBodyLen.toNat := by
    rw [hlen, PkgHead.sizeof]
    omega
  rw [hbody, toInt32_of_lt (by omega)] at hdec
  obtain ⟨herr, hcode⟩ := readErrorCode_replyFrame h h' p decodes ptrAck
  rw [← hdec, ← replyBody_code_iff, ← hcode]
  constructor
  · rintro ⟨ack, iAckSize, hdeal', -, htold⟩
    rw [hdeal, Option.some.injEq, Prod.mk.injEq] at hdeal'
    rw [← hdeal'.1, ← hdeal'.2, hbody, ← hdec] at htold
    exact htold
  · intro htold
    refine ⟨_, _, hdeal, herr, ?_⟩
    rw [hbody, ← hdec]
    exact htold

/-- **When the error code is in network order**: on a big-endian server always, on a
little-endian one for the requests that are accepted and for no others. -/
theorem error_code_network_order_iff (h h' : Host) (frame after ptrAck : List UInt8)
    (p : PkgHead) (hp : PkgHead.unpacket h frame true = some p)
    (hlen : frame.length = PkgHead.sizeof + p.uiPkgBodyLen.toNat)
    (hint : frame.length < 2 ^ 31) (hack : ptrAck.length = MAXSOCKBUFF) :
    TellsOutcome h h' frame after ptrAck p ↔
      h.endian = .big ∨ (p.uiMsgType = MSGTYPE_GETUSERALIAS ∧
        decodable3005 ((frame ++ after).drop PkgHead.sizeof) p.uiPkgBodyLen.toNat = true) := by
  have hrest : ((frame ++ after).drop PkgHead.sizeof).length =
      p.uiPkgBodyLen.toNat + after.length := by
    rw [List.length_drop, List.length_append, hlen]
    omega
  rw [tellsOutcome_iff h h' hp hlen hint hack, decodes3005_iff h (by omega) (by omega)]

/-- A request that is accepted: the client reads code 0. -/
theorem error_code_network_order_iff_accepted :
    TellsOutcome .x86_64 .x86_64
      ([0, 0, 0, 0, 0, 0, 0, 0, 0, 0, 0, 0, 0, 0, 11, 189, 0, 0, 0, 0, 0, 0, 0, 3] ++ [49, 0, 7])
      [0] (List.replicate MAXSOCKBUFF 0) ⟨0, 0, 0, MSGTYPE_GETUSERALIAS, 0, 3⟩ :=
  (error_code_network_order_iff .x86_64 .x86_64 _ [0] _ _ (by decide) rfl (by decide)
    List.length_replicate).mpr (Or.inr ⟨rfl, by decide⟩)

/-- **An unknown message type is answered with code 256** on a little-endian server. -/
theorem error_code_in_host_order :
    ¬ ∀ (h h' : Host) (frame after ptrAck : List UInt8) (p : PkgHead),
      PkgHead.unpacket h frame true = some p →
      frame.length = PkgHead.sizeof + p.uiPkgBodyLen.toNat → frame.length < 2 ^ 31 →
      ptrAck.length = MAXSOCKBUFF → TellsOutcome h h' frame after ptrAck p := by
  intro hall
  have hp : PkgHead.unpacket .x86_64 (List.replicate 24 0) true = some ⟨0, 0, 0, 0, 0, 0⟩ := by
    decide
  have hack : (List.replicate MAXSOCKBUFF (0 : UInt8)).length = MAXSOCKBUFF :=
    List.length_replicate
  have htold := hall .x86_64 .x86_64 (List.replicate 24 0) [0] (List.replicate MAXSOCKBUFF 0)
    ⟨0, 0, 0, 0, 0, 0⟩ hp rfl (by decide) hack
  rw [tellsOutcome_iff _ _ hp rfl (by decide) hack] at htold
  rcases htold with hbig | ⟨htype, -⟩
  · exact absurd hbig (by decide)
  · exact absurd htype (by decide)

end MyGenSvr.Ports
