import MyGenSvr.Ports.Handler3005
import MyGenSvr.Ports.ServedStream

/-!
# A call and its answer, from host to host

A client that has the archives and the header of the repository puts a request together
the way `DealService` puts an acknowledgement together, and takes the acknowledgement
apart the way `DealService` takes a request apart.  The request goes through the pool as
a part of a stream, and so does the answer.

## Main results

* `Call.pack_eq` — the bytes of a request do not depend on the host they are packed on.
* `accepts3005_wire` — the server decodes every request a client can pack, also those
  whose string does not survive the round trip.
* `remote_call` — the `k`-th acknowledgement a client takes out of what it has got
  decodes, on any host, to the answer to its `k`-th request.
-/

namespace MyGenSvr.Ports

open MyGenSvr.Verified.ByteOrder
open MyGenSvr.Verified.Buffer
open MyGenSvr.Verified.Framing

/-- A request to `func3005`: the fields of the header that are the client's to choose,
and the archive. -/
structure Call where
  pkgHead : PkgHead
  archv3005Req : Archv3005Req
  deriving DecidableEq, Repr

/-- The header of a call with a body of `uiPkgBodyLen` bytes. -/
def Call.head (c : Call) (uiPkgBodyLen : UInt32) : PkgHead :=
  { c.pkgHead with uiMsgType := MSGTYPE_GETUSERALIAS, uiPkgBodyLen := uiPkgBodyLen }

/-- A request in the buffer `ptrReq`, and its length; `none` if the archive does not
fit. -/
def Call.pack (h : Host) (c : Call) (ptrReq : List UInt8) : Option (List UInt8 × Int) :=
  let dataBuffer := DataBuffer.ofData (ptrReq.drop PkgHead.sizeof)
    (toUInt32 (MAXSOCKBUFF - PkgHead.sizeof)) 0
  let s := c.archv3005Req.save h (.new dataBuffer true)
  let iPkgBodyLen := toInt32 s.pBuffer.getDataSize.toNat
  if s.iError ≠ 0 then none
  else do
    let ptrReq ← (c.head (toUInt32 iPkgBodyLen)).packet h
      (ptrReq.take PkgHead.sizeof ++ s.pBuffer.pData) true
    return (ptrReq, toInt32 (PkgHead.sizeof + iPkgBodyLen))

/-- An acknowledgement taken apart: the header, the serializer over the body, and what it
extracts into `archv3005Ack`. -/
def readAck (h : Host) (ptrAck : List UInt8) (archv3005Ack : Archv3005Ack) :
    Option (PkgHead × Serializer × Archv3005Ack) := do
  let pkgHeadAck ← PkgHead.unpacket h ptrAck true
  let dataBuffer := DataBuffer.ofData (ptrAck.drop PkgHead.sizeof) pkgHeadAck.uiPkgBodyLen
    pkgHeadAck.uiPkgBodyLen
  return (pkgHeadAck, archv3005Ack.load h (.new dataBuffer true))

/-- The bytes a host sends for a call. -/
def Call.Sends (h : Host) (c : Call) (frame : List UInt8) : Prop :=
  ∃ ptrReq ptrReq' iReqSize, ptrReq.length = MAXSOCKBUFF ∧
    c.pack h ptrReq = some (ptrReq', iReqSize) ∧ frame = ptrReq'.take iReqSize.toNat

/-- The request fits a frame. -/
def Call.Fits (c : Call) : Prop :=
  PkgHead.sizeof + (c.archv3005Req.userNumber.length + 2) ≤ MAXFRAME

instance (c : Call) : Decidable c.Fits := by
  unfold Call.Fits
  infer_instance

/-! ## The request -/

/-- The body of a call, on any host. -/
def Call.body (c : Call) : List UInt8 :=
  c.archv3005Req.userNumber ++ [0, c.archv3005Req.opType]

/-- The frame of a call, on any host. -/
def Call.frame (c : Call) : List UInt8 :=
  (c.head (UInt32.ofNat c.body.length)).image ++ c.body

theorem Call.body_length (c : Call) :
    c.body.length = c.archv3005Req.userNumber.length + 2 := by
  rw [Call.body, List.length_append]
  rfl

theorem Call.frame_length (c : Call) : c.frame.length = 24 + c.body.length := by
  rw [Call.frame, List.length_append, PkgHead.image_length]

theorem Archv3005Req.wire_eq (h : Host) (v : Archv3005Req) :
    v.wire h true = v.userNumber ++ [0, v.opType] := by
  have hbyte : Scalar.byte.wire h true v.opType = [v.opType] := byte_wire h true v.opType
  rw [Archv3005Req.wire, hbyte, List.append_assoc]
  rfl

/-- **A request is the same bytes on every host**, at the front of the buffer. -/
theorem Call.pack_eq (h : Host) {c : Call} (hfits : c.Fits) {ptrReq : List UInt8}
    (hreq : ptrReq.length = MAXSOCKBUFF) :
    c.pack h ptrReq = some (splice ptrReq 0 c.frame, (c.frame.length : Int)) := by
  have hdrop := drop_sizeof_length hreq
  have hlen := c.body_length
  rw [Call.Fits, MAXFRAME_eq, PkgHead.sizeof] at hfits
  have hwire := c.archv3005Req.wire_eq h
  obtain ⟨s, hs⟩ : ∃ s, s = Serializer.new
      (.ofData (ptrReq.drop PkgHead.sizeof) 65511 0) true := ⟨_, rfl⟩
  have hord : Ordered s.pBuffer := by
    rw [hs]
    exact ⟨Nat.le_refl _, Nat.zero_le _, hdrop.ge⟩
  have happ := c.archv3005Req.save_appends h hord (by rw [hs]; rfl) (by
    rw [hs]
    show 0 + (c.archv3005Req.wire h true).length ≤ 65511
    rw [c.archv3005Req.wire_length]
    omega)
  obtain ⟨hok, happ⟩ := happ
  have hmode : s.changeByteOrder = true := by
    rw [hs]
    rfl
  rw [hmode, hwire] at happ
  have hdata : (c.archv3005Req.save h s).pBuffer.pData =
      splice (ptrReq.drop PkgHead.sizeof) 0 c.body := by
    rw [happ.data_eq, hs]
    rfl
  have hsize : (c.archv3005Req.save h s).pBuffer.getDataSize.toNat = c.body.length := by
    rw [happ.ordered.getDataSize_toNat, happ.ordered.unread_length, happ.write_eq,
      happ.read_eq, hs]
    exact Nat.zero_add _
  have hroom : 24 ≤ (ptrReq.take PkgHead.sizeof ++
      splice (ptrReq.drop PkgHead.sizeof) 0 c.body).length := by
    rw [List.length_append, List.length_take, hreq]
    exact Nat.le_add_right _ _
  have hcast : (PkgHead.sizeof : Int) + (c.body.length : Int) =
      ((24 + c.body.length : Nat) : Int) := rfl
  have hbuf : toUInt32 ((MAXSOCKBUFF : Int) - (PkgHead.sizeof : Int)) = 65511 := rfl
  simp only [Call.pack, hbuf, ← hs, hok, hsize, hdata]
  rw [if_neg (by decide), toInt32_of_lt (by omega), packet_net h _ hroom,
    head_and_body hreq (PkgHead.image_length _), toUInt32_ofNat, hcast,
    toInt32_of_lt (by omega), c.frame_length]
  rfl

/-- What is sent for a call that fits is its frame. -/
theorem Call.Sends.eq {h : Host} {c : Call} {frame : List UInt8} (hsends : c.Sends h frame)
    (hfits : c.Fits) : frame = c.frame := by
  obtain ⟨ptrReq, ptrReq', iReqSize, hreq, hpack, rfl⟩ := hsends
  rw [c.pack_eq h hfits hreq, Option.some.injEq, Prod.mk.injEq] at hpack
  obtain ⟨rfl, rfl⟩ := hpack
  rw [splice_zero, Int.toNat_natCast]
  exact List.take_left

/-- The frame of a call is cut off by the server in one piece. -/
theorem Call.frame_front {c : Call} (hfits : c.Fits) :
    pkgFront c.frame = .frame c.frame.length := by
  have hlen := c.body_length
  have hhead := PkgHead.ofBytes_image (c.head (UInt32.ofNat c.body.length)) c.body
  rw [Call.Fits, PkgHead.sizeof] at hfits
  have hmax := MAXFRAME_eq
  have htotal : c.frame.length = frameLen c.frame := by
    have hword : beWord c.frame 20 = UInt32.ofNat c.body.length :=
      congrArg PkgHead.uiPkgBodyLen hhead
    rw [frameLen, hword, toNat_ofNat32 (by omega), c.frame_length, PkgHead.sizeof]
    exact Nat.add_comm _ _
  refine pkgFront_eq_frame.mpr ⟨?_, htotal, ?_, le_refl _⟩
  · rw [c.frame_length]
    exact Nat.le_add_right _ _
  · rw [c.frame_length]
    omega

/-- **Every request decodes**, whatever bytes its string is made of. -/
theorem accepts3005_wire (c : Call) : accepts3005 (c.frame.drop PkgHead.sizeof) = true := by
  have hbody : c.frame.drop PkgHead.sizeof = c.body :=
    List.drop_left' (PkgHead.image_length _)
  have hscan : strlen c.body ≤ c.archv3005Req.userNumber.length := by
    have hsplit := strlen_append c.archv3005Req.userNumber [0, c.archv3005Req.opType]
    rw [Call.body, hsplit]
    split
    · next hmem => exact (strlen_lt_of_mem hmem).le
    · exact le_refl _
  have hlen := c.body_length
  rw [hbody, accepts3005, decide_eq_true_iff]
  refine ⟨List.mem_append_right _ List.mem_cons_self, Or.inr ?_⟩
  omega

/-! ## The answer -/

/-- The acknowledgement of a call. -/
theorem ackOf_call (h : Host) (c : Call) :
    ackOf h c.frame = (c.head 28).image ++ archv3005Ack.wire h true := by
  have hhead : PkgHead.ofBytes c.frame = c.head (UInt32.ofNat c.body.length) :=
    PkgHead.ofBytes_image _ _
  have hbody : replyBody h MSGTYPE_GETUSERALIAS true = archv3005Ack.wire h true := by
    rw [replyBody, if_pos rfl, if_pos rfl]
  have htype : (c.head (UInt32.ofNat c.body.length)).uiMsgType = MSGTYPE_GETUSERALIAS := rfl
  rw [ackOf, accepts3005_wire, hhead, replyFrame, htype, hbody, archv3005Ack_wire_length]
  rfl

/-- The acknowledgement is the same bytes on every host. -/
theorem archv3005Ack_wire_eq (h h' : Host) :
    archv3005Ack.wire h true = archv3005Ack.wire h' true := by
  have hcode : ∀ g : Host, Scalar.uInt16.wire g true archv3005Ack.errorCode = beBytes 2 0 := by
    intro g
    exact g.endian.image_hton 2 0
  rw [Archv3005Ack.wire, Archv3005Ack.wire, hcode, hcode]

/-- **The answer read back**, on any host and into any archive. -/
theorem readAck_call (h h' : Host) (c : Call) (w : Archv3005Ack) :
    ∃ s, readAck h' (ackOf h c.frame) w = some (c.head 28, s, archv3005Ack) ∧ s.iError = 0 := by
  have hlen := archv3005Ack_wire_length h
  have hlong : 24 ≤ (ackOf h c.frame).length := by
    rw [ackOf_call, List.length_append, PkgHead.image_length]
    exact Nat.le_add_right _ _
  have hhead : PkgHead.ofBytes (ackOf h c.frame) = c.head 28 := by
    rw [ackOf_call]
    exact PkgHead.ofBytes_image _ _
  have hbody : (ackOf h c.frame).drop PkgHead.sizeof = archv3005Ack.wire h true := by
    rw [ackOf_call]
    exact List.drop_left' (PkgHead.image_length _)
  obtain ⟨s, hs⟩ : ∃ s, s = Serializer.new
      (.ofData (archv3005Ack.wire h true) 28 28) true := ⟨_, rfl⟩
  have hord : Ordered s.pBuffer := by
    rw [hs]
    exact ofData_ordered hlen.ge
  have hunread : s.pBuffer.unread = archv3005Ack.wire h' s.changeByteOrder ++ [] := by
    have hall : s.pBuffer.unread = (archv3005Ack.wire h true).take 28 := by
      rw [hs]
      rfl
    rw [hall, List.take_of_length_le hlen.le, hs, List.append_nil]
    exact archv3005Ack_wire_eq h h'
  obtain ⟨hok, hvalue, -⟩ := Archv3005Ack.load_of_streamable hord (by rw [hs]; rfl)
    archv3005Ack w [] (by decide) (by decide) (by decide) (by decide) hunread
  refine ⟨(w.load h' s).1, ?_, hok⟩
  rw [readAck, unpacket_net h' hlong, hhead, hbody]
  simp only [Option.bind_eq_bind, Option.bind_some]
  rw [show (c.head 28).uiPkgBodyLen = 28 from rfl, ← hs]
  exact congrArg (fun v => some (c.head 28, (w.load h' s).1, v)) hvalue

/-! ## A stream of calls -/

/-- The frames of the calls of a stream. -/
theorem sends_frames {h : Host} {calls : List Call} {frames : List (List UInt8)}
    (hsends : List.Forall₂ (Call.Sends h) calls frames) (hfits : ∀ c ∈ calls, c.Fits) :
    frames = calls.map Call.frame := by
  induction hsends with
  | nil => rfl
  | cons hone _ ih =>
      rw [List.map_cons, hone.eq (hfits _ List.mem_cons_self),
        ih fun c hc => hfits c (List.mem_cons_of_mem _ hc)]

theorem calls_front {calls : List Call} (hfits : ∀ c ∈ calls, c.Fits) :
    ∀ q ∈ calls.map Call.frame, pkgFramer.front q = .frame q.length := by
  intro q hq
  obtain ⟨c, hc, rfl⟩ := List.mem_map.mp hq
  exact Call.frame_front (hfits c hc)

/-- What the server owes for a part of the stream. -/
theorem serve_calls (h : Host) {calls : List Call} (hfits : ∀ c ∈ calls, c.Fits)
    {received : List UInt8} (hpart : received <+: (calls.map Call.frame).flatten) :
    serve h received <+: calls.map fun c => ackOf h c.frame := by
  have hcut := (frames_of_part pkgFramer (calls_front hfits) hpart).map (ackOf h)
  rwa [List.map_map] at hcut

/-- What a client takes out of a part of the answer. -/
theorem Served.acks {h : Host} {e : Entry} {pending : List UInt8} (hserved : Served h e pending)
    (hgave : e.hist.gaveUp = false) {calls : List Call} (hfits : ∀ c ∈ calls, c.Fits)
    (hreceived : e.hist.received <+: (calls.map Call.frame).flatten) {got : List UInt8}
    (hgot : got <+: e.hist.wire) :
    pkgFramer.frames got <+: calls.map fun c => ackOf h c.frame := by
  obtain ⟨hpart, -⟩ := hserved.cut hgave
  have hreplies : e.hist.replies <+: serve h e.hist.received := by
    rw [serve, ← hserved.requests, List.map_append, ← hserved.replies]
    exact List.prefix_append _ _
  obtain ⟨later, hlater⟩ := hgot
  have hcut := frames_prefix_append pkgFramer got later
  rw [hlater] at hcut
  exact hcut.trans (hpart.trans (hreplies.trans (serve_calls h hfits hreceived)))

/-- The acknowledgements of calls, read by their client. -/
theorem readAcks {h : Host} (h' : Host) {calls : List Call} {acks : List (List UInt8)}
    (hacks : acks <+: calls.map fun c => ackOf h c.frame) {k : Nat} {ack : List UInt8}
    (hk : acks[k]? = some ack) :
    ∃ c, calls[k]? = some c ∧ ∀ w : Archv3005Ack, ∃ s,
      readAck h' ack w = some (c.head 28, s, archv3005Ack) ∧ s.iError = 0 := by
  have hanswer : (calls.map fun c => ackOf h c.frame)[k]? = some ack := by
    obtain ⟨later, hlater⟩ := hacks
    rw [← hlater, List.getElem?_append_left (List.getElem?_eq_some_iff.mp hk).1, hk]
  rw [List.getElem?_map] at hanswer
  obtain ⟨c, hc, rfl⟩ := Option.map_eq_some_iff.mp hanswer
  exact ⟨c, hc, readAck_call h h' c⟩

/-- **A client calls, the server answers.**  Whatever part of its requests the server has
received and whatever part of the answer the client has got, each acknowledgement the
client takes out of it unpacks to the header of the request it answers and decodes to the
archive of `func3005`; and once all requests have come in and are served, and the answer has
been sent and has arrived, there is one for every request. -/
theorem remote_call (cfg : PoolCfg) (h h' h'' : Host) (h64 : h.LP64) (s : Pool)
    (hs : (pool cfg h).Reachable s) (i : Nat)
    (ht : (s.reactors i).core.buffers.Terminated) (fd : Int) (e : Entry)
    (pending : List UInt8) (hknows : (s.reactors i).core.Knows fd e pending)
    (hgave : e.hist.gaveUp = false) (calls : List Call) (hfits : ∀ c ∈ calls, c.Fits)
    (frames : List (List UInt8)) (hsends : List.Forall₂ (Call.Sends h') calls frames)
    (hreceived : e.hist.received <+: frames.flatten) (got : List UInt8)
    (hgot : got <+: e.hist.wire) :
    (∀ (k : Nat) (ack : List UInt8), (pkgFramer.frames got)[k]? = some ack →
      ∃ c, calls[k]? = some c ∧ ∀ w : Archv3005Ack, ∃ s,
        readAck h'' ack w = some (c.head 28, s, archv3005Ack) ∧ s.iError = 0) ∧
      (e.hist.received = frames.flatten → pkgFramer.frames e.conn.buffered = [] →
        pending = [] → got = e.hist.wire →
        (pkgFramer.frames got).length = calls.length) := by
  rw [sends_frames hsends hfits] at hreceived ⊢
  have hserved := pool_serves h64 hs ht hknows
  constructor
  · intro k ack hk
    exact readAcks h'' (hserved.acks hgave hfits hreceived hgot) hk
  · intro hwhole hdrained hidle hlast
    obtain ⟨-, hall⟩ := hserved.cut hgave
    have hcut := frames_flatten pkgFramer (calls_front hfits) []
    rw [List.append_nil, frames_nil, List.append_nil] at hcut
    have hrequests := hserved.requests
    rw [hdrained, List.append_nil, hwhole, hcut] at hrequests
    rw [hlast, hall hidle, hserved.replies, List.length_map, hrequests, List.length_map]

/-- A call with the number `"1"`. -/
def firstCall : Call := ⟨⟨1, 2, 3, 0, 7, 0⟩, ⟨[49], 5⟩⟩

/-- A call of a big-endian client is answered, and a little-endian one reads the answer. -/
theorem remote_call_first :
    ∃ s e, ((s : Pool).reactors 0).core.Knows 5 e [] ∧
      e.hist.received = firstCall.frame ∧
      ∀ (k : Nat) (ack : List UInt8), (pkgFramer.frames e.hist.wire)[k]? = some ack →
        ∃ c : Call, [firstCall][k]? = some c ∧ ∀ w : Archv3005Ack, ∃ s,
          readAck .x86_64 ack w = some (c.head 28, s, archv3005Ack) ∧ s.iError = 0 := by
  have hfits : ∀ c ∈ [firstCall], c.Fits := by decide
  have hone := hfits firstCall (List.mem_singleton_self _)
  obtain ⟨s, e, ack, hs, hknows, ht, hreceived, -, -, hgave⟩ :=
    boot_answers Host.x86_64_LP64 (Call.frame_front hone)
  have hbuf : (List.replicate MAXSOCKBUFF (0 : UInt8)).length = MAXSOCKBUFF :=
    List.length_replicate
  have hsends : firstCall.Sends .bigEndian firstCall.frame := by
    refine ⟨_, _, _, hbuf, Call.pack_eq .bigEndian hone hbuf, ?_⟩
    rw [splice_zero, Int.toNat_natCast]
    exact List.take_left.symm
  refine ⟨s, e, hknows, hreceived, ?_⟩
  exact (remote_call (.single none) .x86_64 .bigEndian .x86_64 Host.x86_64_LP64 s hs 0 ht 5 e []
    hknows hgave [firstCall] hfits [firstCall.frame] (.cons hsends .nil)
    (by rw [hreceived, List.flatten_singleton]) e.hist.wire List.prefix_rfl).1

end MyGenSvr.Ports
