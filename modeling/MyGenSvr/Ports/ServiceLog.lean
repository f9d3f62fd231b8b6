import MyGenSvr.Ports.HexString
import MyGenSvr.Ports.Service

/-!
# What is logged of a request

`DealService` dumps the request before it does anything and the answer when it is done; in
between there is a line for the decoded request, or one for the error.  A third error, for
an answer that does not fit its buffer, is looked for but cannot occur.

## Main results

* `service_logged` — what the lines of one request show.
-/

namespace MyGenSvr.Ports

open MyGenSvr.Verified.ByteOrder
open MyGenSvr.Verified.Buffer

/-- The text of both errors that `GetErrorCode` reports. -/
def getErrorCodeText (uiMsgType : UInt32) : List UInt8 :=
  bytes "GetErrorCode error!msgType[" ++ decimal (toInt32 uiMsgType.toNat) ++ bytes "]"

/-- The calls of `func3005`, compiled from `file` and run by the thread `self`. -/
def func3005Logs (h : Host) (file : List UInt8) (self : Nat) (uiMsgType : UInt32)
    (ptrPkgBodyReq : List UInt8) (iPkgBodyReqLen : Int) (ptrPkgBodyAck : List UInt8)
    (iMaxPkgBodyAckLen : Int) : List LogCall :=
  let loaded := load3005 h ptrPkgBodyReq iPkgBodyReqLen
  if loaded.1.iError ≠ 0 then [⟨LOG_ERROR, file, 92, getErrorCodeText uiMsgType, self⟩]
  else
    let s := loaded.1.setDataBuffer (.ofData ptrPkgBodyAck (toUInt32 iMaxPkgBodyAckLen) 0)
    let s := archv3005Ack.save h s
    ⟨LOG_DEBUG, file, 96, bytes "archv3005Req, userNumber[" ++ cstr loaded.2.userNumber ++
        bytes "],opType[" ++ decimal loaded.2.opType.toNat ++ bytes "]", self⟩ ::
      if s.iError ≠ 0 then [⟨LOG_ERROR, file, 119, getErrorCodeText uiMsgType, self⟩] else []

/-- The calls of `DealService`; `none` where an access is out of bounds. -/
def DealServiceLogs (h : Host) (file : List UInt8) (self : Nat) (ptrReq : List UInt8)
    (iReqSize : Int) (ptrAck : List UInt8) : Option (List LogCall) := do
  let received ← dumpCall file 32 self ptrReq iReqSize
  let pkgHeadReq ← PkgHead.unpacket h ptrReq true
  let done :=
    if pkgHeadReq.uiMsgType = MSGTYPE_GETUSERALIAS then
      func3005Logs h file self pkgHeadReq.uiMsgType (ptrReq.drop PkgHead.sizeof)
        (toInt32 (iReqSize - PkgHead.sizeof)) (ptrAck.drop PkgHead.sizeof)
        (MAXSOCKBUFF - PkgHead.sizeof)
    else
      [⟨LOG_ERROR, file, 48, bytes "msgType error!msgType[" ++
        decimal (toInt32 pkgHeadReq.uiMsgType.toNat) ++ bytes "]", self⟩]
  let (ptrAck, iAckSize) ← DealService h ptrReq iReqSize ptrAck
  let answered ← dumpCall file 63 self ptrAck iAckSize
  return received :: done ++ [answered]

/-- At any time the line of the call shows these bytes. -/
def Shows (c : LogCall) (shown : List UInt8) : Prop :=
  ∀ tm usec, TwoDigitTime tm → usec < 10 ^ 6 →
    ∃ line, c.format tm usec = some line ∧ readDump line = shown

/-- A line of an error. -/
def LogCall.isError (c : LogCall) : Bool := c.lvl == LOG_ERROR

section Calls

variable {h : Host} {file ptr : List UInt8} {self : Nat} {line iSize : Int}

theorem dumpCall_isSome (hsize : iSize ≤ ptr.length) :
    ∃ c, dumpCall file line self ptr iSize = some c := by
  rw [dumpCall, HexString, if_pos hsize]
  exact ⟨_, rfl⟩

/-- The head of the line of a dump. -/
theorem dump_headLength {c : LogCall} (hcall : dumpCall file line self ptr iSize = some c)
    (hlow : -2 ^ 31 ≤ line) (hhigh : line < 2 ^ 31) : c.headLength ≤ 46 + file.length := by
  obtain ⟨-, rfl⟩ := dumpCall_eq hcall
  exact headLength_le hlow hhigh

/-- The line of a dump. -/
theorem dump_shows {c : LogCall} (hfile : OneLine file) (hshort : file.length ≤ 1800)
    (hlow : -2 ^ 31 ≤ line) (hhigh : line < 2 ^ 31)
    (hcall : dumpCall file line self ptr iSize = some c) :
    Shows c ((ptr.take iSize.toNat).take
      ((2048 - (c.headLength + 35 + (decimal iSize).length)) / 3)) := by
  intro tm usec htime husec
  have hhead := dump_headLength hcall hlow hhigh
  have hlength : (c.header tm usec).length = c.headLength :=
    header_length husec htime.month htime.day htime.hour htime.min htime.sec
  have hline := format_eq (show (c.header tm usec).length ≤ 2048 by omega)
  exact ⟨_, hline, readDump_format hfile htime husec hcall hline⟩

end Calls

/-- The answer to a request that decodes fits. -/
theorem archv3005Ack_fits (h : Host) (m : List UInt8) (n : Int) {ack : List UInt8}
    (hack : ack.length = 65511) (herr : (load3005 h m n).1.iError = 0) :
    (archv3005Ack.save h
      ((load3005 h m n).1.setDataBuffer (.ofData ack 65511 0))).iError = 0 := by
  obtain ⟨s, hs⟩ : ∃ s, s = (load3005 h m n).1.setDataBuffer (.ofData ack 65511 0) := ⟨_, rfl⟩
  have hc : s.changeByteOrder = true := by
    rw [hs]
    exact load3005_changeByteOrder h m n
  have hbuf : s.pBuffer = .ofData ack 65511 0 := by
    rw [hs]
    rfl
  have hord : Ordered s.pBuffer := by
    rw [hbuf]
    exact ⟨Nat.le_refl _, Nat.zero_le _, hack.ge⟩
  have hzero : s.iError = 0 := by
    rw [hs]
    exact herr
  rw [← hs]
  refine (Archv3005Ack.save_appends h archv3005Ack hord hzero ?_).1
  rw [hc, archv3005Ack_wire_length, hbuf]
  show 0 + 28 ≤ 65511
  decide

/-- The error lines of `func3005`. -/
theorem func3005Logs_errors (h : Host) (file : List UInt8) (self : Nat) (uiMsgType : UInt32)
    (m : List UInt8) (n : Int) {ack : List UInt8} (hack : ack.length = 65511) :
    (func3005Logs h file self uiMsgType m n ack 65511).countP LogCall.isError =
      if decodes3005 h m n then 0 else 1 := by
  rw [func3005Logs, decodes3005]
  by_cases herr : (load3005 h m n).1.iError = 0
  · have hfits := archv3005Ack_fits h m n hack herr
    have hsize : toUInt32 65511 = 65511 := rfl
    dsimp only
    rw [if_neg (not_not_intro herr), hsize, if_neg (not_not_intro hfits), decide_eq_true herr]
    rfl
  · rw [if_pos herr, decide_eq_false herr]
    rfl

/-- The body of the answer to a decoded request is no other's. -/
theorem replyBody_eq_wire_iff (h : Host) (uiMsgType : UInt32) (decodes : Bool) :
    replyBody h uiMsgType decodes = archv3005Ack.wire h true ↔
      uiMsgType = MSGTYPE_GETUSERALIAS ∧ decodes = true := by
  have hmini : ∀ code, miniAck h code ≠ archv3005Ack.wire h true := by
    intro code heq
    have hlength := congrArg List.length heq
    rw [archv3005Ack_wire_length, miniAck, h.endian.image_length] at hlength
    exact absurd hlength (by decide)
  rw [replyBody]
  by_cases htype : uiMsgType = MSGTYPE_GETUSERALIAS
  · rw [if_pos htype]
    cases decodes with
    | true => exact iff_of_true rfl ⟨htype, rfl⟩
    | false => exact iff_of_false (hmini 2) (fun hboth => absurd hboth.2 (by decide))
  · rw [if_neg htype]
    exact iff_of_false (hmini 1) (fun hboth => htype hboth.1)

/-- **What the log shows of a request.**  For every request in memory, from any thread and at
any times, with a source file name of at most 1800 bytes: the first line shows the front of
the request, as much as there is room for; the last line shows the whole answer; and between
them there is exactly one line of an error if the answer is not that of a decoded request,
and none if it is. -/
theorem service_logged (h : Host) (file : List UInt8) (self : Nat) (ptrReq ptrAck : List UInt8)
    (iReqSize : Int) (hfile : OneLine file) (hshort : file.length ≤ 1800)
    (hreq : 24 ≤ ptrReq.length) (hsize : iReqSize ≤ ptrReq.length)
    (hack : ptrAck.length = MAXSOCKBUFF) :
    ∃ received done answered after iAckSize,
      DealServiceLogs h file self ptrReq iReqSize ptrAck =
        some (received :: done ++ [answered]) ∧
      DealService h ptrReq iReqSize ptrAck = some (after, iAckSize) ∧
      Shows received ((ptrReq.take iReqSize.toNat).take
        ((2048 - (received.headLength + 35 + (decimal iReqSize).length)) / 3)) ∧
      Shows answered (after.take iAckSize.toNat) ∧
      done.countP LogCall.isError =
        if (after.take iAckSize.toNat).drop PkgHead.sizeof = archv3005Ack.wire h true then 0
        else 1 := by
  obtain ⟨decodes, hdecodes⟩ : ∃ decodes, decodes = decodes3005 h (ptrReq.drop PkgHead.sizeof)
    (toInt32 (iReqSize - PkgHead.sizeof)) := ⟨_, rfl⟩
  obtain ⟨frame, hframe⟩ : ∃ frame, frame = replyFrame h (.ofBytes ptrReq) decodes := ⟨_, rfl⟩
  have hdeal := @DealService_eq h ptrReq ptrAck frame iReqSize hreq hack (hdecodes ▸ hframe)
  have hbody := replyBody_length_le h (PkgHead.ofBytes ptrReq).uiMsgType decodes
  have hlength : frame.length ≤ 52 := by
    rw [hframe, replyFrame_length]
    omega
  have hshown : (splice ptrAck 0 frame).take (frame.length : Int).toNat = frame := by
    rw [splice_zero]
    exact List.take_left
  obtain ⟨received, hreceived⟩ := @dumpCall_isSome file ptrReq self 32 iReqSize hsize
  obtain ⟨answered, hanswered⟩ :=
    @dumpCall_isSome file (splice ptrAck 0 frame) self 63 frame.length (by
      rw [splice_zero, List.length_append]
      omega)
  have hlogs : DealServiceLogs h file self ptrReq iReqSize ptrAck = some (received ::
      (if (PkgHead.ofBytes ptrReq).uiMsgType = MSGTYPE_GETUSERALIAS then
        func3005Logs h file self (PkgHead.ofBytes ptrReq).uiMsgType
          (ptrReq.drop PkgHead.sizeof) (toInt32 (iReqSize - PkgHead.sizeof))
          (ptrAck.drop PkgHead.sizeof) (MAXSOCKBUFF - PkgHead.sizeof)
      else
        [⟨LOG_ERROR, file, 48, bytes "msgType error!msgType[" ++
          decimal (toInt32 (PkgHead.ofBytes ptrReq).uiMsgType.toNat) ++ bytes "]", self⟩]) ++
      [answered]) := by
    rw [DealServiceLogs, hreceived, unpacket_net h hreq, hdeal]
    simp only [Option.bind_eq_bind, Option.bind_some, hanswered]
    rfl
  refine ⟨received, _, answered, _, _, hlogs, hdeal, ?_, ?_, ?_⟩
  · exact dump_shows hfile hshort (by decide) (by decide) hreceived
  · have hshows := dump_shows hfile hshort (by decide) (by decide) hanswered
    have hhead := dump_headLength hanswered (by decide) (by decide)
    have hdigits : (decimal (frame.length : Int)).length ≤ 11 :=
      decimal_length_le (by omega) (by omega)
    rw [hshown, List.take_of_length_le (by omega)] at hshows
    rw [hshown]
    exact hshows
  · have hdrop : frame.drop PkgHead.sizeof =
        replyBody h (PkgHead.ofBytes ptrReq).uiMsgType decodes := by
      rw [hframe, replyFrame]
      exact List.drop_left' (PkgHead.image_length _)
    have hsize : (MAXSOCKBUFF : Int) - (PkgHead.sizeof : Int) = 65511 := rfl
    rw [hshown, hdrop, if_congr (replyBody_eq_wire_iff h _ decodes) rfl rfl]
    by_cases htype : (PkgHead.ofBytes ptrReq).uiMsgType = MSGTYPE_GETUSERALIAS
    · rw [if_pos htype, hsize, func3005Logs_errors h file self _ _ _ (drop_sizeof_length hack),
        ← hdecodes, if_congr (and_iff_right htype) rfl rfl]
    · rw [if_neg htype, if_neg (fun hboth => htype hboth.1)]
      rfl

/-- The log of a header of zeros. -/
theorem service_logged_zeros :
    ∃ (received : LogCall) (done : List LogCall) (answered : LogCall) (after : List UInt8)
      (iAckSize : Nat),
      DealServiceLogs .x86_64 (bytes "Service.cpp") 7 (List.replicate 24 0) 24
        (List.replicate MAXSOCKBUFF 0) = some (received :: done ++ [answered]) ∧
      Shows answered (after.take iAckSize) := by
  have hfile : OneLine (bytes "Service.cpp") := by decide +kernel
  obtain ⟨received, done, answered, after, iAckSize, hlogs, -, -, hshows, -⟩ :=
    service_logged .x86_64 (bytes "Service.cpp") 7 (List.replicate 24 0)
      (List.replicate MAXSOCKBUFF 0) 24 hfile (by decide) (by decide) (by decide)
      List.length_replicate
  exact ⟨received, done, answered, after, _, hlogs, hshows⟩

end MyGenSvr.Ports
