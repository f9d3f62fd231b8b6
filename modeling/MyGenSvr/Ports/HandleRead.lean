import MyGenSvr.Ports.Service
import MyGenSvr.Ports.Socket

/-!
# `MyReactor::HandleRead`

What one readable event does to the connection it is for, up to the point where
the acknowledgement is handed to `SendMsg`.  Every copy is checked, so `none`
means an access outside a buffer.

## Main results

* `HandleRead_received`, `HandleRead_eof`, `HandleRead_failed` — the outcome of
  an event, by what `recv` returned and what the framing says about the
  buffered bytes.
-/

namespace MyGenSvr.Ports

open MyGenSvr.Verified.Buffer
open MyGenSvr.Verified.Framing

/-- The request and acknowledgement buffers of a reactor, which all its
connections share, and the memory behind the first. -/
structure Buffers where
  ptrReq : List UInt8
  memAfter : List UInt8
  ptrAck : List UInt8
  deriving DecidableEq, Repr

/-- Both buffers have the size they are allocated with. -/
structure Buffers.Sized (b : Buffers) : Prop where
  req : b.ptrReq.length = MAXSOCKBUFF
  ack : b.ptrAck.length = MAXSOCKBUFF

/-- Where `HandleRead` closes a connection it knows. -/
inductive CloseReason where
  | peerClosed
  | recvError
  | badLength
  deriving DecidableEq, Repr

/-- How `HandleRead` leaves a connection. -/
inductive ReadResult where
  | keep (c : SockConn)
  | close (why : CloseReason) (c : SockConn)
  | reply (c : SockConn) (b : Buffers) (iReqSize iAckSize : Int)
  deriving DecidableEq, Repr

/-- `HandleRead` from the header test on. -/
def HandleBuffered (h : Host) (b : Buffers) (c : SockConn) : Option ReadResult :=
  if c.uiRecvLen < UInt32.ofNat PkgHead.sizeof then some (.keep c)
  else do
    let pkgHead ← PkgHead.unpacket h c.ptrRecvBuff true
    let total := h.sizeT (pkgHead.uiPkgBodyLen.toNat + PkgHead.sizeof)
    if total > MAXFRAME then return .close .badLength c
    else if total > c.uiRecvLen.toNat then return .keep c
    else
      let frame ← load c.ptrRecvBuff 0 total
      let ptrReq ← store b.ptrReq 0 frame
      let uiRecvLen := c.uiRecvLen - UInt32.ofNat total
      let rest ← load c.ptrRecvBuff total uiRecvLen.toNat
      let ptrRecvBuff ← store c.ptrRecvBuff 0 rest
      let ptrAck ← store b.ptrAck 0 (List.replicate MAXSOCKBUFF 0)
      let (ptrAck, iAckSize) ← DealService h (ptrReq ++ b.memAfter) (toInt32 total) ptrAck
      return .reply { c with ptrRecvBuff := ptrRecvBuff, uiRecvLen := uiRecvLen }
        { b with ptrReq := ptrReq, ptrAck := ptrAck } (toInt32 total) iAckSize

/-- `HandleRead` on a connection found in the map, with what `recv` returns. -/
def HandleRead (h : Host) (b : Buffers) (c : SockConn) (o : RecvOutcome) :
    Option ReadResult := do
  let (iRet, c) ← RecvMsg c o
  if iRet = -2 then return .close .peerClosed c
  else if iRet ≠ 0 then return .close .recvError c
  else HandleBuffered h b c

/-! ## Outcomes by the front of the buffered bytes -/

/-- The outcomes `RecvMsg` reports as success: data, or nothing there yet. -/
def RecvOutcome.Receives : RecvOutcome → Prop
  | .data _ => True
  | .eof => False
  | .error errno => errno = .EWOULDBLOCK ∨ errno = .EAGAIN

instance : (o : RecvOutcome) → Decidable o.Receives
  | .data _ => instDecidableTrue
  | .eof => instDecidableFalse
  | .error errno =>
      inferInstanceAs (Decidable (errno = .EWOULDBLOCK ∨ errno = .EAGAIN))

/-- Why `HandleRead` closes a connection after a failure of `RecvMsg`. -/
def RecvOutcome.lostReason : RecvOutcome → CloseReason
  | .eof => .peerClosed
  | _ => .recvError

theorem RecvOutcome.lostReason_ne (o : RecvOutcome) : o.lostReason ≠ .badLength := by
  cases o <;> simp [RecvOutcome.lostReason]

/-- The request buffer after `frame` was copied into it, with the memory
behind. -/
def Buffers.reqMem (b : Buffers) (frame : List UInt8) : List UInt8 :=
  splice b.ptrReq 0 frame ++ b.memAfter

/-- Whether `DealService` finds the body of `frame` decodable. -/
def Buffers.decodes (h : Host) (b : Buffers) (frame : List UInt8) : Bool :=
  decodes3005 h ((b.reqMem frame).drop PkgHead.sizeof)
    ((frame.length : Int) - PkgHead.sizeof)

/-- The acknowledgement of `frame`. -/
def Buffers.ackFrame (h : Host) (b : Buffers) (frame : List UInt8) : List UInt8 :=
  replyFrame h (.ofBytes (b.reqMem frame)) (b.decodes h frame)

/-- The announced total of a header fits `size_t`. -/
def NoWrap (h : Host) (bytes : List UInt8) : Prop :=
  24 ≤ bytes.length → frameLen bytes < 2 ^ h.sizeBits

instance (h : Host) (bytes : List UInt8) : Decidable (NoWrap h bytes) := by
  unfold NoWrap
  infer_instance

/-- On a 64-bit host no total wraps. -/
theorem Host.LP64.noWrap {h : Host} (h64 : h.LP64) (bytes : List UInt8) : NoWrap h bytes := by
  intro _
  have hlt := (beWord bytes 20).toNat_lt
  rw [h64, frameLen, PkgHead.sizeof]
  omega

section Outcomes

variable {h : Host} {b : Buffers} {c : SockConn} {bytes : List UInt8}

theorem replyFrame_length_le (h : Host) (p : PkgHead) (decodes : Bool) :
    (replyFrame h p decodes).length ≤ 52 := by
  have hbody := replyBody_length_le h p.uiMsgType decodes
  rw [replyFrame_length]
  omega

theorem Buffers.ackFrame_length_pos (h : Host) (b : Buffers) (frame : List UInt8) :
    0 < (b.ackFrame h frame).length := by
  rw [Buffers.ackFrame, replyFrame_length]
  omega

theorem Buffers.ackFrame_length_le (h : Host) (b : Buffers) (frame : List UInt8) :
    (b.ackFrame h frame).length ≤ 52 := replyFrame_length_le h _ _

/-- The header of a frame that is at least a header long. -/
theorem ofBytes_reqMem (b : Buffers) {frame : List UInt8} (hlen : 24 ≤ frame.length) :
    PkgHead.ofBytes (b.reqMem frame) = PkgHead.ofBytes frame := by
  rw [Buffers.reqMem, splice_zero, List.append_assoc]
  exact PkgHead.ofBytes_append hlen

/-- An acknowledgement starts like the request buffer. -/
theorem Buffers.ackFrame_take_reqMem (h : Host) (b : Buffers) {frame : List UInt8}
    (hmem : 24 ≤ (b.reqMem frame).length) :
    (b.ackFrame h frame).take 20 = (b.reqMem frame).take 20 := by
  have htake : ((b.reqMem frame).take 20).length = 20 := by
    rw [List.length_take]
    omega
  rw [Buffers.ackFrame, replyFrame]
  rw [image_ofBytes hmem, List.append_assoc, List.take_append_of_le_length (by omega),
    List.take_take]
  rfl

/-- An acknowledgement starts like the request it answers. -/
theorem Buffers.ackFrame_take (h : Host) (b : Buffers) {frame : List UInt8}
    (hlen : 24 ≤ frame.length) : (b.ackFrame h frame).take 20 = frame.take 20 := by
  have hmem : b.reqMem frame =
      frame ++ (b.ptrReq.drop frame.length ++ b.memAfter) := by
    rw [Buffers.reqMem, splice_zero, List.append_assoc]
  rw [Buffers.ackFrame_take_reqMem h b (by rw [hmem, List.length_append]; omega), hmem,
    List.take_append_of_le_length (by omega)]

/-- The header of a connection is the header of its buffered bytes. -/
theorem Holds.unpacket_eq (hc : Holds c bytes) (hlen : 24 ≤ bytes.length) :
    PkgHead.unpacket h c.ptrRecvBuff true = some (PkgHead.ofBytes bytes) := by
  have hle := hc.le
  have hmem : 24 ≤ c.ptrRecvBuff.length := by
    rw [hc.block]
    decide
  have hfront : PkgHead.ofBytes c.ptrRecvBuff = PkgHead.ofBytes bytes := by
    have happ := @PkgHead.ofBytes_append bytes (c.ptrRecvBuff.drop bytes.length) hlen
    have hsplit := List.take_append_drop bytes.length c.ptrRecvBuff
    rw [hc.data] at hsplit
    rwa [hsplit] at happ
  rw [unpacket_net h hmem, hfront]

/-- What the length test of `HandleRead` computes. -/
theorem total_eq (h : Host) (bytes : List UInt8) :
    h.sizeT ((PkgHead.ofBytes bytes).uiPkgBodyLen.toNat + PkgHead.sizeof) =
      h.sizeT (frameLen bytes) := rfl

theorem NoWrap.sizeT_eq (hsz : NoWrap h bytes) (hlen : 24 ≤ bytes.length) :
    h.sizeT (frameLen bytes) = frameLen bytes := Host.sizeT_of_lt (hsz hlen)

/-- A sum that wraps comes out smaller than a header. -/
theorem sizeT_lt_of_wrap (hsz : ¬ NoWrap h bytes) :
    24 ≤ bytes.length ∧ h.sizeT (frameLen bytes) < 24 := by
  unfold NoWrap at hsz
  have hlt := (beWord bytes 20).toNat_lt
  have hlen : frameLen bytes = (beWord bytes 20).toNat + 24 := rfl
  unfold Host.sizeT
  rcases h.sizeBits_eq with hbits | hbits <;> rw [hbits] at hsz ⊢ <;> omega

theorem Holds.short_iff (hc : Holds c bytes) :
    c.uiRecvLen < UInt32.ofNat PkgHead.sizeof ↔ bytes.length < 24 := by
  rw [UInt32.lt_iff_toNat_lt, hc.len]
  rfl

theorem HandleBuffered_more (hsz : NoWrap h bytes) (hc : Holds c bytes)
    (hfront : pkgFront bytes = .more) : HandleBuffered h b c = some (.keep c) := by
  unfold HandleBuffered
  by_cases hshort : bytes.length < 24
  · rw [if_pos (hc.short_iff.mpr hshort)]
  · have hnbad : ¬ frameLen bytes > MAXFRAME := by
      intro hbad
      have hfront' := pkgFront_eq_bad.mpr ⟨by omega, hbad⟩
      rw [hfront] at hfront'
      cases hfront'
    have hpart : frameLen bytes > bytes.length := by
      by_contra hle
      have hfront' := (@pkgFront_eq_frame bytes (frameLen bytes)).mpr
        ⟨by omega, rfl, by omega, by omega⟩
      rw [hfront] at hfront'
      cases hfront'
    rw [if_neg (fun hlt => hshort (hc.short_iff.mp hlt)), hc.unpacket_eq (by omega)]
    simp only [Option.bind_eq_bind, Option.bind_some, total_eq,
      hsz.sizeT_eq (show 24 ≤ bytes.length by omega), hc.len]
    rw [if_neg hnbad, if_pos hpart]
    rfl

theorem HandleBuffered_bad (hsz : NoWrap h bytes) (hc : Holds c bytes)
    (hfront : pkgFront bytes = .bad) :
    HandleBuffered h b c = some (.close .badLength c) := by
  obtain ⟨hlen, hbad⟩ := pkgFront_eq_bad.mp hfront
  unfold HandleBuffered
  rw [if_neg (fun hlt => absurd (hc.short_iff.mp hlt) (by omega)), hc.unpacket_eq hlen]
  simp only [Option.bind_eq_bind, Option.bind_some, total_eq, hsz.sizeT_eq hlen]
  rw [if_pos hbad]
  rfl

/-- The front of what is buffered, copied out. -/
theorem Holds.load_front (hc : Holds c bytes) {t : Nat} (hle : t ≤ bytes.length) :
    load c.ptrRecvBuff 0 t = some (bytes.take t) := by
  have hbound := hc.le
  rw [load_eq_some (by rw [hc.block]; omega), List.drop_zero]
  congr 1
  have htake : (c.ptrRecvBuff.take bytes.length).take t = bytes.take t := by rw [hc.data]
  rwa [List.take_take, Nat.min_eq_left hle] at htake

/-- What is buffered behind the front. -/
theorem Holds.load_rest (hc : Holds c bytes) {t : Nat} (hle : t ≤ bytes.length) :
    load c.ptrRecvBuff t (bytes.drop t).length = some (bytes.drop t) := by
  have hbound := hc.le
  rw [List.length_drop, load_eq_some (by rw [hc.block]; omega)]
  congr 1
  have hdrop : (c.ptrRecvBuff.take bytes.length).drop t = bytes.drop t := by rw [hc.data]
  rwa [List.drop_take] at hdrop

/-- The length left once the front is gone. -/
theorem Holds.len_rest (hc : Holds c bytes) {t : Nat} (hle : t ≤ bytes.length) :
    (c.uiRecvLen - UInt32.ofNat t).toNat = (bytes.drop t).length := by
  have hbound := hc.le
  have hsock : MAXSOCKBUFF = 65535 := rfl
  have hnat : (UInt32.ofNat t).toNat = t := toNat_ofNat32 (by omega)
  have hle32 : UInt32.ofNat t ≤ c.uiRecvLen := by
    rw [UInt32.le_iff_toNat_le, hnat, hc.len]
    exact hle
  rw [UInt32.toNat_sub_of_le _ _ hle32, hnat, hc.len, List.length_drop]

/-- **Dispatch.**  When the length tests pass for `t` bytes, these are copied
out, the rest moves to the front, and the acknowledgement stands at the front of
its buffer. -/
theorem HandleBuffered_dispatch (hb : b.Sized) (hc : Holds c bytes) {t : Nat}
    (hlen : 24 ≤ bytes.length) (htotal : h.sizeT (frameLen bytes) = t)
    (hmax : t ≤ MAXFRAME) (hle : t ≤ bytes.length) :
    ∃ c' b', HandleBuffered h b c =
        some (.reply c' b' t (b.ackFrame h (bytes.take t)).length) ∧
      Holds c' (bytes.drop t) ∧ c'.iSockFd = c.iSockFd ∧ c'.iSeq = c.iSeq ∧
      b'.Sized ∧ b'.memAfter = b.memAfter ∧
      b'.ptrReq = splice b.ptrReq 0 (bytes.take t) ∧
      b'.ptrAck.take (b.ackFrame h (bytes.take t)).length =
        b.ackFrame h (bytes.take t) := by
  have hbound := hc.le
  have hsock : MAXSOCKBUFF = 65535 := rfl
  rw [MAXFRAME_eq] at hmax
  -- the copies
  have htakelen : (bytes.take t).length = t := by
    rw [List.length_take, Nat.min_eq_left hle]
  have hload := hc.load_front hle
  have hreq : store b.ptrReq 0 (bytes.take t) = some (splice b.ptrReq 0 (bytes.take t)) :=
    store_eq_some (by rw [htakelen, hb.req]; omega)
  have hsub := hc.len_rest hle
  have hrest := hc.load_rest hle
  have hshift : (bytes.drop t).length ≤ c.ptrRecvBuff.length := by
    rw [List.length_drop, hc.block]
    omega
  have hmove : store c.ptrRecvBuff 0 (bytes.drop t) =
      some (splice c.ptrRecvBuff 0 (bytes.drop t)) := store_eq_some (by omega)
  have hzero : store b.ptrAck 0 (List.replicate MAXSOCKBUFF 0) =
      some (List.replicate MAXSOCKBUFF 0) := by
    rw [store_eq_some (by rw [List.length_replicate, hb.ack, Nat.zero_add]), splice_zero,
      List.length_replicate, ← hb.ack, List.drop_length, List.append_nil]
  -- the request handler
  have hreqlen : (splice b.ptrReq 0 (bytes.take t)).length = MAXSOCKBUFF := by
    rw [splice_length (by rw [htakelen, hb.req]; omega), hb.req]
  have hmem : (b.reqMem (bytes.take t)).length = MAXSOCKBUFF + b.memAfter.length := by
    rw [Buffers.reqMem, List.length_append, hreqlen]
  have hint : toInt32 (t : Int) = t := toInt32_of_lt (by omega)
  have hbody : toInt32 ((t : Int) - PkgHead.sizeof) = (t : Int) - PkgHead.sizeof := by
    rw [PkgHead.sizeof]
    exact toInt32_of_range (by omega) (by omega)
  have hdeal := @DealService_eq h (b.reqMem (bytes.take t)) (List.replicate MAXSOCKBUFF 0)
    (b.ackFrame h (bytes.take t)) t (by rw [hmem]; omega) List.length_replicate
    (by rw [hbody, Buffers.ackFrame, Buffers.decodes, htakelen])
  have hacklen := b.ackFrame_length_le h (bytes.take t)
  refine ⟨{ c with
      ptrRecvBuff := splice c.ptrRecvBuff 0 (bytes.drop t)
      uiRecvLen := c.uiRecvLen - UInt32.ofNat t },
    { b with
      ptrReq := splice b.ptrReq 0 (bytes.take t)
      ptrAck := splice (List.replicate MAXSOCKBUFF 0) 0 (b.ackFrame h (bytes.take t)) },
    ?_, ?_, rfl, rfl, ?_, rfl, rfl, ?_⟩
  · unfold HandleBuffered
    rw [if_neg (fun hlt => absurd (hc.short_iff.mp hlt) (by omega)), hc.unpacket_eq hlen]
    simp only [Option.bind_eq_bind, Option.bind_some, total_eq, htotal, hc.len]
    rw [if_neg (by rw [MAXFRAME_eq]; omega), if_neg (by omega)]
    simp only [hload, hreq, hsub, hrest, hmove, hzero, Option.bind_some]
    rw [← Buffers.reqMem, hint, hdeal]
    rfl
  · refine { block := ?_, len := hsub, data := ?_ }
    · show (splice c.ptrRecvBuff 0 (bytes.drop t)).length = MAXSOCKBUFF
      rw [splice_length (by omega), hc.block]
    · show (splice c.ptrRecvBuff 0 (bytes.drop t)).take _ = _
      rw [splice_zero, List.take_left]
  · refine { req := hreqlen, ack := ?_ }
    · show (splice (List.replicate MAXSOCKBUFF 0) 0 (b.ackFrame h (bytes.take t))).length =
        MAXSOCKBUFF
      rw [splice_length (by rw [List.length_replicate]; omega), List.length_replicate]
  · show (splice (List.replicate MAXSOCKBUFF 0) 0 _).take _ = _
    rw [splice_zero, List.take_left]

/-- A success of `RecvMsg` appends the bytes that came. -/
theorem RecvMsg_receives {o : RecvOutcome} (hc : Holds c bytes) (ho : o.Receives)
    (hfit : o.Fits c.requested) :
    ∃ c', RecvMsg c o = some (0, c') ∧ Holds c' (bytes ++ o.bytes) ∧
      c'.iSockFd = c.iSockFd ∧ c'.iSeq = c.iSeq := by
  cases o with
  | data chunk => exact RecvMsg_data hc hfit.2
  | eof => exact ho.elim
  | error errno =>
      refine ⟨c, ?_, ?_, rfl, rfl⟩
      · exact if_pos ho
      · show Holds c (bytes ++ [])
        rwa [List.append_nil]

/-- After a success of `RecvMsg`, `HandleRead` goes on with the buffered bytes. -/
theorem HandleRead_received {o : RecvOutcome} (hc : Holds c bytes) (ho : o.Receives)
    (hfit : o.Fits c.requested) :
    ∃ c', HandleRead h b c o = HandleBuffered h b c' ∧ Holds c' (bytes ++ o.bytes) ∧
      c'.iSockFd = c.iSockFd ∧ c'.iSeq = c.iSeq := by
  obtain ⟨c', hrecv, hrest⟩ := RecvMsg_receives hc ho hfit
  refine ⟨c', ?_, hrest⟩
  rw [HandleRead, hrecv]
  rfl

theorem HandleRead_eof : HandleRead h b c .eof = some (.close .peerClosed c) := rfl

theorem HandleRead_failed {errno : Errno} (ho : ¬ (RecvOutcome.error errno).Receives) :
    HandleRead h b c (.error errno) = some (.close .recvError c) := by
  have hrecv : RecvMsg c (.error errno) = some (-1, c) := if_neg ho
  rw [HandleRead, hrecv]
  rfl

end Outcomes

end MyGenSvr.Ports
