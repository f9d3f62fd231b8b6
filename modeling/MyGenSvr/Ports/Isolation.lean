import MyGenSvr.Ports.ReactorRun
import MyGenSvr.Verified.Noninterference

/-!
# Connections do not influence each other

The connections of a reactor share its request buffer, and the archive decoder
scans for a terminator past the end of a request.  What a connection sees is
nevertheless computed from its own chunks (`Client.read`), as long as the scan
comes back with an `int` and no frame total wraps.

## Main results

* `ackFrame_eq_ackOf` — the acknowledgement of a frame is a function of the frame.
* `client_isolated` — two runs with the same events of a connection show the
  same requests, acknowledgements and closes on it.
* `stale_bytes_answered` — what happens otherwise.
-/

namespace MyGenSvr.Ports

open MyGenSvr.Verified.Buffer
open MyGenSvr.Verified.Framing
open MyGenSvr.Verified.Transition
open MyGenSvr.Verified.Noninterference
open MyGenSvr.Verified.PartialMap

/-! ## A client on its own -/

/-- What one connection shows: the bytes buffered, the requests dispatched and
their acknowledgements. -/
structure Session where
  buffered : List UInt8
  requests : List (List UInt8)
  replies : List (List UInt8)
  deriving DecidableEq, Repr

/-- What a descriptor shows: the connection open on it, and those closed. -/
structure Client where
  live : Option Session
  closed : List (CloseReason × Session)
  deriving DecidableEq, Repr

/-- What happens to a client. -/
inductive ClientEvent where
  | opened
  | got (o : RecvOutcome)
  deriving DecidableEq, Repr

/-- The acknowledgement of a frame, by its bytes alone. -/
def ackOf (h : Host) (frame : List UInt8) : List UInt8 :=
  replyFrame h (.ofBytes frame) (accepts3005 (frame.drop PkgHead.sizeof))

/-- One readable event of a client that has the reactor to itself. -/
def Client.read (h : Host) (c : Client) (o : RecvOutcome) : Client :=
  match c.live with
  | none => c
  | some s =>
      if o.Receives then
        let bytes := s.buffered ++ o.bytes
        match pkgFront bytes with
        | .more => { c with live := some { s with buffered := bytes } }
        | .bad => ⟨none, c.closed ++ [(.badLength, { s with buffered := bytes })]⟩
        | .frame n =>
            { c with
              live := some ⟨bytes.drop n, s.requests ++ [bytes.take n],
                s.replies ++ [ackOf h (bytes.take n)]⟩ }
      else ⟨none, c.closed ++ [(o.lostReason, s)]⟩

/-- A client by its own events. -/
def Client.react (h : Host) (c : Client) : ClientEvent → Client
  | .opened => if c.live.isSome then c else { c with live := some ⟨[], [], []⟩ }
  | .got o => c.read h o

/-! ## What a reactor shows of a client -/

def Entry.session (e : Entry) : Session :=
  ⟨e.conn.buffered, e.hist.requests, e.hist.replies⟩

/-- The closed connections of a descriptor. -/
def closedOn (fd : Int) (r : Int × CloseReason × Entry) : Option (CloseReason × Session) :=
  if r.1 = fd then some (r.2.1, r.2.2.session) else none

/-- What a reactor shows of a descriptor. -/
def Reactor.view (fd : Int) (w : Reactor) : Client where
  live := (w.umapFdSockConn fd).map Entry.session
  closed := w.retired.filterMap (closedOn fd)

/-- What an event is to a descriptor. -/
def Event.own (fd : Int) : Event → Option ClientEvent
  | .newConn fd' peername _ =>
      if fd' = fd ∧ 0 < fd ∧ peername = true then some .opened else none
  | .read fd' o => if fd' = fd then some (.got o) else none
  | .send _ => none

/-- The scan for the terminator of the first field comes back with an `int`. -/
def Buffers.ScanFits (b : Buffers) (frame : List UInt8) : Prop :=
  (PkgHead.ofBytes frame).uiMsgType = MSGTYPE_GETUSERALIAS →
    strlen ((b.reqMem frame).drop PkgHead.sizeof) < 2 ^ 31

/-- A readable event of `fd` completes no frame whose total wraps or whose scan
runs away. -/
def Contained (h : Host) (fd : Int) (w : Reactor) (ev : Event) : Prop :=
  ∀ o e, ev = .read fd o → w.umapFdSockConn fd = some e → o.Receives →
    NoWrap h (e.conn.buffered ++ o.bytes) ∧
      ∀ n, pkgFront (e.conn.buffered ++ o.bytes) = .frame n →
        w.buffers.ScanFits ((e.conn.buffered ++ o.bytes).take n)

/-- The runs of a reactor all of whose steps are contained for `fd`. -/
def contained (h : Host) (fd : Int) : System Reactor Event where
  init := Reactor.Fresh
  step w ev w' := (reactor h).step w ev w' ∧ Contained h fd w ev

/-! ## The acknowledgement is a function of the frame -/

theorem reqMem_drop (b : Buffers) {frame : List UInt8} (hlen : 24 ≤ frame.length) :
    (b.reqMem frame).drop PkgHead.sizeof =
      frame.drop PkgHead.sizeof ++ (b.ptrReq.drop frame.length ++ b.memAfter) := by
  rw [Buffers.reqMem, splice_zero, List.append_assoc]
  exact List.drop_append_of_le_length hlen

/-- **Stale bytes do not matter**: the acknowledgement of a frame is decided by
the frame, if the scan comes back with an `int`. -/
theorem ackFrame_eq_ackOf (h : Host) {b : Buffers} {frame : List UInt8}
    (hlen : 24 ≤ frame.length) (hmax : frame.length ≤ MAXSOCKBUFF)
    (hscan : b.ScanFits frame) : b.ackFrame h frame = ackOf h frame := by
  have hsock : MAXSOCKBUFF = 65535 := rfl
  rw [Buffers.ackFrame, ackOf, ofBytes_reqMem b hlen]
  by_cases htype : (PkgHead.ofBytes frame).uiMsgType = MSGTYPE_GETUSERALIAS
  · have hsize : ((frame.length : Int) - PkgHead.sizeof) =
        ((frame.drop PkgHead.sizeof).length : Nat) := by
      rw [List.length_drop, PkgHead.sizeof]
      omega
    have hbody := hscan htype
    have hshort : (frame.drop PkgHead.sizeof).length ≤ frame.length := by
      rw [List.length_drop]
      exact Nat.sub_le _ _
    rw [reqMem_drop b hlen] at hbody
    rw [Buffers.decodes, hsize, reqMem_drop b hlen,
      decodes3005_eq h (by rw [List.length_append]; omega) (by omega) hbody,
      List.take_left]
  · have hbody : ∀ decodes, replyBody h (PkgHead.ofBytes frame).uiMsgType decodes =
        miniAck h 1 := by
      intro decodes
      rw [replyBody, if_neg htype]
    rw [replyFrame, replyFrame, hbody, hbody]

/-! ## One step -/

section Step

variable {h : Host} {b : Buffers} {e : Entry} {bytes : List UInt8} {o : RecvOutcome}
  {fd : Int} {w : Reactor}

/-- A client after the result of a readable event. -/
def Client.after (c : Client) : EntryResult → Client
  | .keep e => { c with live := some e.session }
  | .close why e => ⟨none, c.closed ++ [(why, e.session)]⟩
  | .reply e _ _ => { c with live := some e.session }

theorem view_conclude_self (r : EntryResult) :
    (w.conclude fd r).view fd = (w.view fd).after r := by
  cases r with
  | keep e =>
      simp only [Reactor.conclude, Reactor.view, Function.update_self, Option.map_some,
        Client.after]
  | close why e =>
      simp only [Reactor.conclude, Reactor.view, Function.update_self, Option.map_none,
        Client.after, List.filterMap_append]
      simp [closedOn]
  | reply e b ack =>
      simp only [Reactor.conclude, Reactor.view, Function.update_self, Option.map_some,
        Client.after]

theorem view_conclude_other {fd' : Int} (hne : fd' ≠ fd) (r : EntryResult) :
    (w.conclude fd' r).view fd = w.view fd := by
  cases r with
  | keep e =>
      simp only [Reactor.conclude, Reactor.view, Function.update_of_ne hne.symm]
  | close why e =>
      simp only [Reactor.conclude, Reactor.view, Function.update_of_ne hne.symm,
        List.filterMap_append]
      simp [closedOn, hne]
  | reply e b ack =>
      simp only [Reactor.conclude, Reactor.view, Function.update_of_ne hne.symm]

/-- **A readable event**, as the client on its own would have it. -/
theorem Reads.client {r : EntryResult} (hr : Reads h b e bytes o r)
    (he : Holds e.conn bytes)
    (hsz : o.Receives → NoWrap h (bytes ++ o.bytes) ∧
      ∀ n, pkgFront (bytes ++ o.bytes) = .frame n → b.ScanFits ((bytes ++ o.bytes).take n))
    {c : Client} (hc : c.live = some e.session) : c.after r = c.read h o := by
  have hbuf : e.session.buffered = bytes := he.buffered_eq
  rw [Client.read, hc]
  dsimp only
  cases hr with
  | lost ho => rw [if_neg ho, Client.after]
  | more c' ho _ hfront hc' =>
      rw [if_pos ho, hbuf, hfront]
      simp only [Client.after, Entry.session, hc'.buffered_eq, History.receive_requests,
        History.receive_replies]
  | bad c' ho _ hfront hc' =>
      rw [if_pos ho, hbuf, hfront]
      simp only [Client.after, Entry.session, hc'.buffered_eq, History.receive_requests,
        History.receive_replies]
  | frame c' b' n ho _ hfront hle hc' =>
      obtain ⟨hlen, hn, hmax, htotal⟩ := pkgFront_eq_frame.mp hfront
      have hge := frameLen_ge (bytes ++ o.bytes)
      have htake : ((bytes ++ o.bytes).take n).length = n := by
        rw [List.length_take, Nat.min_eq_left htotal]
      rw [MAXFRAME_eq] at hmax
      have hack := @ackFrame_eq_ackOf h b ((bytes ++ o.bytes).take n) (by omega)
        (by rw [htake, MAXSOCKBUFF]; omega) ((hsz ho).2 n hfront)
      rw [if_pos ho, hbuf, hfront]
      simp only [Client.after, Entry.session, hc'.buffered_eq, History.dispatch, hack,
        History.receive_requests, History.receive_replies]
  | wrapped c' b' t ho hwrap => exact absurd (hsz ho).1 hwrap

theorem view_newConn_self (hfd : 0 < fd) (block : List UInt8) :
    (w.newConn fd true block).view fd = (w.view fd).react h .opened := by
  unfold Reactor.newConn
  rw [if_neg (by omega), if_pos rfl]
  simp only [Reactor.view, Client.react, insertConn, Option.isSome_map]
  by_cases hkey : (w.umapFdSockConn fd).isSome
  · rw [if_pos hkey, if_pos hkey]
  · rw [if_neg hkey, if_neg hkey, Function.update_self]
    rfl

theorem view_newConn_other {fd' : Int} {peername : Bool} {block : List UInt8}
    (hown : Event.own fd (.newConn fd' peername block) = none) :
    (w.newConn fd' peername block).view fd = w.view fd := by
  unfold Reactor.newConn
  by_cases hneg : fd' ≤ 0
  · rw [if_pos hneg]
  · rw [if_neg hneg]
    cases peername with
    | false => rfl
    | true =>
        have hne : fd ≠ fd' := by
          rintro rfl
          simp [Event.own] at hown
          omega
        simp only [Reactor.view, insertConn, if_true]
        by_cases hkey : (w.umapFdSockConn fd').isSome
        · rw [if_pos hkey]
        · rw [if_neg hkey, Function.update_of_ne hne]

theorem view_sendTurn (fd' : Int) (loop : SendLoop) (o : SendOutcome) :
    (w.sendTurn fd' loop o).view fd = w.view fd := by
  simp only [Reactor.sendTurn, Reactor.view]
  congr 1
  refine map_alter ?_ fd
  intro e
  rfl

end Step

/-! ## The run -/

theorem contained_holds {h : Host} {fd : Int} {w : Reactor}
    (hw : (contained h fd).Reachable w) :
    Upholds (fun _ e => ∃ bytes, Holds e.conn bytes) (fun _ _ => True) w := by
  obtain ⟨w₀, es, hfresh, hrun⟩ := hw
  have hreactor : (reactor h).Run w₀ es w := by
    apply System.Run.mono ?_ hrun
    intro s ev t hst
    exact hst.1
  exact (holds_invariant h).reachable ⟨w₀, es, hfresh, hreactor⟩

/-- A readable event of the client itself. -/
theorem view_read {h : Host} {fd : Int} {w w' : Reactor} {o : RecvOutcome}
    (hw : (contained h fd).Reachable w) (hst : (contained h fd).step w (.read fd o) w') :
    w'.view fd = (w.view fd).read h o := by
  obtain ⟨⟨henabled, hnext⟩, hcont⟩ := hst
  have hgood := contained_holds hw
  simp only [Reactor.next] at hnext
  cases he : w.umapFdSockConn fd with
  | none =>
      rw [he, Option.some.injEq] at hnext
      rw [← hnext, Client.read, Reactor.view, he]
      rfl
  | some e =>
      obtain ⟨bytes, hbytes⟩ := hgood.entries fd e he
      obtain ⟨r, hread, hr⟩ :=
        Entry.handleRead_spec h hgood.sized hbytes (henabled.2 e he)
      have hsz := hcont o e rfl he
      rw [hbytes.buffered_eq] at hsz
      rw [he] at hnext
      dsimp only at hnext
      rw [hread, Option.map_some, Option.some.injEq] at hnext
      rw [← hnext, view_conclude_self]
      exact hr.client hbytes hsz (by rw [Reactor.view, he, Option.map_some])

/-- **Unwinding**: the events of a client change what it sees as they would if
it were alone, and other events leave it alone. -/
def clientUnwinding (h : Host) (fd : Int) :
    Unwinding (contained h fd) Client ClientEvent where
  view := Reactor.view fd
  own := Event.own fd
  react := Client.react h
  mine := by
    intro w ev w' a hw hst hown
    cases ev with
    | newConn fd' peername block =>
        simp only [Event.own, Option.ite_none_right_eq_some, Option.some.injEq] at hown
        obtain ⟨⟨rfl, hfd, rfl⟩, rfl⟩ := hown
        have hnext := hst.1.2
        rw [Reactor.next, Option.some.injEq] at hnext
        exact hnext ▸ view_newConn_self hfd block
    | read fd' o =>
        simp only [Event.own, Option.ite_none_right_eq_some, Option.some.injEq] at hown
        obtain ⟨rfl, rfl⟩ := hown
        exact view_read hw hst
    | send o => cases hown
  others := by
    intro w ev w' hw hst hown
    have hnext := hst.1.2
    cases ev with
    | newConn fd' peername block =>
        rw [Reactor.next, Option.some.injEq] at hnext
        exact hnext ▸ view_newConn_other hown
    | read fd' o =>
        have hne : fd' ≠ fd := by
          rintro rfl
          simp [Event.own] at hown
        simp only [Reactor.next] at hnext
        cases he : w.umapFdSockConn fd' with
        | none =>
            rw [he, Option.some.injEq] at hnext
            rw [hnext]
        | some e =>
            rw [he] at hnext
            obtain ⟨r, -, hr⟩ := Option.map_eq_some_iff.mp hnext
            exact hr ▸ view_conclude_other hne r
    | send o =>
        simp only [Reactor.next] at hnext
        cases hsend : w.sending with
        | none =>
            rw [hsend] at hnext
            cases hnext
        | some loop =>
            rw [hsend, Option.some.injEq] at hnext
            exact hnext ▸ view_sendTurn _ _ _

/-- A fresh reactor shows nothing. -/
theorem Reactor.Fresh.view {w : Reactor} (hw : w.Fresh) (fd : Int) :
    w.view fd = ⟨none, []⟩ := by
  rw [Reactor.view, hw.umap, hw.retired]
  rfl

/-- **Connections do not influence each other.**  Two runs that have the same
events of a descriptor, whatever the request buffer and the memory behind it
held at first and whatever other clients did (nothing, where one of the runs has
the client alone), show the same requests, acknowledgements and closes on it. -/
theorem client_isolated (h : Host) (fd : Int) (w₀ v₀ w v : Reactor) (es fs : List Event)
    (hw₀ : w₀.Fresh) (hv₀ : v₀.Fresh) (hw : (contained h fd).Run w₀ es w)
    (hv : (contained h fd).Run v₀ fs v)
    (hsame : es.filterMap (Event.own fd) = fs.filterMap (Event.own fd)) :
    w.view fd = v.view fd := by
  have hstart : w₀.view fd = v₀.view fd := (hw₀.view fd).trans (hv₀.view fd).symm
  exact (clientUnwinding h fd).noninterference (.init hw₀) (.init hv₀) hw hv hstart hsame

/-! ## Memory that ends the scan -/

/-- The memory behind the request buffer holds a NUL in the reach of an `int`. -/
def Buffers.Terminated (b : Buffers) : Prop :=
  ∃ d, b.memAfter[d]? = some 0 ∧ MAXSOCKBUFF - PkgHead.sizeof + d < 2 ^ 31

theorem Buffers.Terminated.scanFits {b : Buffers} (ht : b.Terminated) (hb : b.Sized)
    {frame : List UInt8} (hmax : frame.length ≤ MAXSOCKBUFF) : b.ScanFits frame := by
  intro _
  obtain ⟨d, hd, hreach⟩ := ht
  have hlen : (splice b.ptrReq 0 frame).length = MAXSOCKBUFF := by
    rw [splice_length (by rw [hb.req]; omega), hb.req]
  have hindex : PkgHead.sizeof + (MAXSOCKBUFF - PkgHead.sizeof + d) = MAXSOCKBUFF + d := by
    rw [MAXSOCKBUFF, PkgHead.sizeof]
    omega
  have hzero : ((b.reqMem frame).drop PkgHead.sizeof)[MAXSOCKBUFF - PkgHead.sizeof + d]? =
      some 0 := by
    rw [List.getElem?_drop, hindex, Buffers.reqMem, List.getElem?_append_right (by omega),
      hlen, Nat.add_sub_cancel_left, hd]
  exact Nat.lt_of_le_of_lt (strlen_le_of_getElem? hzero) hreach

/-- No event touches the memory behind the request buffer. -/
theorem step_memAfter {h : Host} {w w' : Reactor} {ev : Event}
    (hw : (reactor h).Reachable w) (hst : (reactor h).step w ev w') :
    w'.buffers.memAfter = w.buffers.memAfter := by
  obtain ⟨henabled, hnext⟩ := hst
  cases ev with
  | newConn fd peername block =>
      rw [Reactor.next, Option.some.injEq] at hnext
      subst hnext
      unfold Reactor.newConn
      split
      · rfl
      · cases peername <;> rfl
  | read fd o =>
      have hgood := (holds_invariant h).reachable hw
      simp only [Reactor.next] at hnext
      cases he : w.umapFdSockConn fd with
      | none =>
          rw [he, Option.some.injEq] at hnext
          rw [hnext]
      | some e =>
          obtain ⟨bytes, hbytes⟩ := hgood.entries fd e he
          obtain ⟨r, hread, hr⟩ :=
            Entry.handleRead_spec h hgood.sized hbytes (henabled.2 e he)
          rw [he] at hnext
          dsimp only at hnext
          rw [hread, Option.map_some, Option.some.injEq] at hnext
          subst hnext
          cases hr with
          | lost ho => rfl
          | more c ho => rfl
          | bad c ho => rfl
          | frame c b' n ho _ _ _ _ _ _ _ hmem => exact hmem
          | wrapped c b' t ho _ _ _ _ _ _ hmem => exact hmem
  | send o =>
      simp only [Reactor.next] at hnext
      cases hsend : w.sending with
      | none =>
          rw [hsend] at hnext
          cases hnext
      | some loop =>
          rw [hsend, Option.some.injEq] at hnext
          exact hnext ▸ rfl

/-- **On a 64-bit host a NUL close behind the request buffer is enough**: every
run is contained, for every descriptor. -/
theorem contained_of_terminated {h : Host} (h64 : h.LP64) (fd : Int) {w₀ w : Reactor}
    {es : List Event} (hw₀ : w₀.Fresh) (ht : w₀.buffers.Terminated)
    (hrun : (reactor h).Run w₀ es w) :
    (contained h fd).Run w₀ es w ∧ w.buffers.Terminated := by
  induction hrun with
  | nil => exact ⟨.nil _, ht⟩
  | snoc hbefore hlast ih =>
      rename_i v u es' ev
      have hreach : (reactor h).Reachable v := ⟨w₀, es', hw₀, hbefore⟩
      have hgood := (holds_invariant h).reachable hreach
      refine ⟨ih.1.snoc ⟨hlast, ?_⟩, ?_⟩
      · intro o e hev he ho
        subst hev
        obtain ⟨bytes, hbytes⟩ := hgood.entries fd e he
        refine ⟨h64.noWrap _, fun n _ => ih.2.scanFits hgood.sized ?_⟩
        obtain ⟨c, -, hc, -, -⟩ := RecvMsg_receives hbytes ho (hlast.1.2 e he)
        have hle := hc.le
        rw [hbytes.buffered_eq, List.length_take]
        omega
      · unfold Buffers.Terminated
        rw [step_memAfter hreach hlast]
        exact ih.2

/-! ## Stale bytes -/

/-- After these events a client has connected on descriptor 5, and nothing more
has happened to it. -/
structure Joined (h : Host) (w₀ w : Reactor) (es : List Event) (e : Entry) : Prop where
  run : (reactor h).Run w₀ es w
  own : es.filterMap (Event.own 5) = [.opened]
  entry : w.umapFdSockConn 5 = some e
  empty : e.hist = .empty
  books : Books e true []
  good : Good w
  idle : w.sending = none
  memAfter : w.buffers.memAfter = w₀.buffers.memAfter

theorem joined_alone (h : Host) {w₀ : Reactor} (hw₀ : w₀.Fresh) :
    ∃ w e, Joined h w₀ w [.newConn 5 true emptyBlock] e ∧
      w.buffers.ptrReq = w₀.buffers.ptrReq := by
  obtain ⟨w, e, hstep, he, hhist, hbooks, hidle, -, hbuf, hgood⟩ :=
    @Good.read_newConn h w₀ hw₀.sending 5 (by decide) (by rw [hw₀.umap]) _ emptyBlock_length
  refine ⟨w, e, ⟨.single hstep, rfl, he, hhist, hbooks, hgood hw₀.upholds, hidle, ?_⟩, ?_⟩
  · rw [hbuf]
  · rw [hbuf]

/-- A client on descriptor 6 has had the request `q` answered before. -/
theorem joined_second (h : Host) {w₀ : Reactor} (hw₀ : w₀.Fresh) {q : List UInt8} {n : Nat}
    (hsz : NoWrap h q) (hroom : q.length ≤ MAXSOCKBUFF) (hfront : pkgFront q = .frame n) :
    ∃ w es e, Joined h w₀ w es e ∧
      w.buffers.ptrReq = splice w₀.buffers.ptrReq 0 (q.take n) := by
  have hlen := (pkgFront_eq_frame.mp hfront).1
  obtain ⟨w₁, e₁, hstep₁, he₁, -, hbooks₁, hidle₁, hother₁, hbuf₁, hgood₁⟩ :=
    @Good.read_newConn h w₀ hw₀.sending 6 (by decide) (by rw [hw₀.umap]) _ emptyBlock_length
  obtain ⟨w₂, e₂, hstep₂, hgood₂, he₂, -, -, hsend₂, hother₂, hmem₂, hreq₂⟩ :=
    Good.read_frame (hgood₁ hw₀.upholds) hidle₁ he₁ hbooks₁ q hsz (by omega)
      (by rw [List.length_nil]; omega) hfront rfl
  obtain ⟨w₃, hstep₃, -, hidle₃, hbuf₃, hother₃, hgood₃⟩ :=
    step_send hsend₂ he₂ (show (SendOutcome.sent _).Fits _ from Nat.le_refl _)
  have hkey : w₃.umapFdSockConn 5 = none := by
    rw [hother₃ 5 (by decide), hother₂ 5 (by decide), hother₁ 5 (by decide), hw₀.umap]
  obtain ⟨w₄, e₄, hstep₄, he₄, hhist₄, hbooks₄, hidle₄, -, hbuf₄, hgood₄⟩ :=
    @Good.read_newConn h w₃ (hidle₃.trans (by rw [sendStep, if_pos rfl])) 5 (by decide) hkey _
      emptyBlock_length
  refine ⟨w₄, _, e₄, ⟨(((System.Run.single hstep₁).snoc hstep₂).snoc hstep₃).snoc hstep₄, rfl,
    he₄, hhist₄, hbooks₄, hgood₄ (hgood₃ hgood₂), hidle₄, ?_⟩, ?_⟩
  · rw [hbuf₄, hbuf₃, hmem₂, hbuf₁]
  · rw [hbuf₄, hbuf₃, hreq₂, hbuf₁, List.nil_append]

/-- The client's first request is answered by what the request buffer then
holds. -/
theorem Joined.answered {h : Host} {w₀ w : Reactor} {es : List Event} {e : Entry}
    (hj : Joined h w₀ w es e) {q : List UInt8} (hlen : 24 ≤ q.length)
    (hroom : q.length ≤ MAXSOCKBUFF) {t : Nat} (ht : h.sizeT (frameLen q) = t)
    (hmax : t ≤ MAXFRAME) (hle : t ≤ q.length) :
    ∃ w', (reactor h).Run w₀ (es ++ [.read 5 (.data q)]) w' ∧
      (es ++ [Event.read 5 (.data q)]).filterMap (Event.own 5) = [.opened, .got (.data q)] ∧
      (w'.view 5).live.map Session.replies = some [w.buffers.ackFrame h (q.take t)] := by
  have hfit : (RecvOutcome.data q).Fits e.conn.requested := by
    refine ⟨by omega, ?_⟩
    rw [hj.books.holds.requested_eq, List.length_nil]
    omega
  obtain ⟨r, hread, hr⟩ :=
    Entry.handleRead_spec h hj.good.sized hj.books.holds hfit
  have henabled : Enabled w (.read 5 (.data q)) := by
    refine ⟨hj.idle, ?_⟩
    intro e' he'
    rw [Option.mem_def, hj.entry, Option.some.injEq] at he'
    exact he' ▸ hfit
  have hnext : w.next h (.read 5 (.data q)) = some (w.conclude 5 r) := by
    simp only [Reactor.next, hj.entry, hread, Option.map_some]
  refine ⟨w.conclude 5 r, hj.run.snoc ⟨henabled, hnext⟩, ?_, ?_⟩
  · rw [List.filterMap_append, hj.own]
    rfl
  · have hwhole : NoWrap h q → pkgFront q = .frame t := by
      intro hsz
      rw [hsz.sizeT_eq hlen] at ht
      exact pkgFront_eq_frame.mpr ⟨hlen, ht.symm, hmax, hle⟩
    have hreplies : (e.hist.receive (.data q)).replies = [] := by
      rw [History.receive_replies, hj.empty]
      rfl
    have hbytes : [] ++ (RecvOutcome.data q).bytes = q := rfl
    rw [view_conclude_self]
    cases hr with
    | lost ho => exact absurd trivial ho
    | more c ho hsz hfront =>
        rw [hbytes] at hsz hfront
        rw [hwhole hsz] at hfront
        cases hfront
    | bad c ho hsz hfront =>
        rw [hbytes] at hsz hfront
        rw [hwhole hsz] at hfront
        cases hfront
    | frame c b' n ho hsz hfront =>
        rw [hbytes] at hsz hfront
        rw [hwhole hsz, Front.frame.injEq] at hfront
        subst hfront
        simp only [Client.after, Entry.session, History.dispatch, hreplies, hbytes,
          Option.map_some, List.nil_append]
    | wrapped c b' t' ho hwrap ht' =>
        rw [hbytes, ht] at ht'
        subst ht'
        simp only [Client.after, Entry.session, History.dispatch, hreplies, hbytes,
          Option.map_some, List.nil_append]

/-- Two clients: what the second is sent is what it is sent when it is alone. -/
theorem client_isolated_two_clients :
    ∃ w v : Reactor, (∃ ack, (w.view 5).live.map Session.replies = some [ack]) ∧
      w.view 5 = v.view 5 := by
  have hterminated : Reactor.boot.buffers.Terminated := ⟨0, rfl, by decide⟩
  obtain ⟨w, es, e, hw, -⟩ := joined_second .x86_64 Reactor.boot_fresh
    (Host.x86_64_LP64.noWrap _) (by decide) pkgFront_zero
  obtain ⟨v, e', hv, -⟩ := joined_alone .x86_64 Reactor.boot_fresh
  obtain ⟨w', hrun, hown, hreplies⟩ := hw.answered (q := List.replicate 24 0) (t := 24)
    (by decide) (by decide) (by decide) (by decide) (by decide)
  obtain ⟨v', hrun', hown', -⟩ := hv.answered (q := List.replicate 24 0) (t := 24)
    (by decide) (by decide) (by decide) (by decide) (by decide)
  exact ⟨w', v', ⟨_, hreplies⟩, client_isolated .x86_64 5 Reactor.boot Reactor.boot w' v' _ _
    Reactor.boot_fresh Reactor.boot_fresh
    (contained_of_terminated Host.x86_64_LP64 5 Reactor.boot_fresh hterminated hrun).1
    (contained_of_terminated Host.x86_64_LP64 5 Reactor.boot_fresh hterminated hrun').1
    (hown.trans hown'.symm)⟩

/-- A run with no event of any other client. -/
def Alone (fd : Int) (es : List Event) : Prop :=
  ∀ ev ∈ es, (ev.own fd).isSome ∨ ∃ o, ev = .send o

/-- Isolation whatever memory holds, as long as there is a NUL somewhere behind
the request buffer, and whatever headers announce. -/
def Isolated (h : Host) : Prop :=
  ∀ (fd : Int) (w₀ w v : Reactor) (es fs : List Event), w₀.Fresh →
    0 ∈ w₀.buffers.memAfter → (reactor h).Run w₀ es w → (reactor h).Run w₀ fs v →
    Alone fd fs → es.filterMap (Event.own fd) = fs.filterMap (Event.own fd) →
    w.view fd = v.view fd

/-- Isolation would make the acknowledgements of a first request agree. -/
theorem Isolated.ackFrame_eq {h : Host} (hiso : Isolated h) {w₀ w v : Reactor}
    {es : List Event} {e e' : Entry} (hw₀ : w₀.Fresh) (hmem : 0 ∈ w₀.buffers.memAfter)
    (hw : Joined h w₀ w es e) (hv : Joined h w₀ v [.newConn 5 true emptyBlock] e')
    {q : List UInt8} (hlen : 24 ≤ q.length) (hroom : q.length ≤ MAXSOCKBUFF) {t : Nat}
    (ht : h.sizeT (frameLen q) = t) (hmax : t ≤ MAXFRAME) (hle : t ≤ q.length) :
    w.buffers.ackFrame h (q.take t) = v.buffers.ackFrame h (q.take t) := by
  obtain ⟨w', hrun, hown, hreplies⟩ := hw.answered hlen hroom ht hmax hle
  obtain ⟨v', hrun', hown', hreplies'⟩ := hv.answered hlen hroom ht hmax hle
  have halone : Alone 5 ([Event.newConn 5 true emptyBlock] ++ [.read 5 (.data q)]) := by
    intro ev hev
    simp only [List.cons_append, List.nil_append, List.mem_cons, List.not_mem_nil,
      or_false] at hev
    rcases hev with rfl | rfl
    · exact Or.inl rfl
    · exact Or.inl rfl
  have hview := hiso 5 w₀ w' v' _ _ hw₀ hmem hrun hrun' halone (hown.trans hown'.symm)
  rw [hview, hreplies'] at hreplies
  simpa using hreplies.symm

/-- Where a total wraps to 0 the acknowledgement is that of the last request of
any client. -/
theorem not_isolated_i386 : ¬ Isolated .i386 := by
  intro hiso
  have hmem : (0 : UInt8) ∈ Reactor.boot.buffers.memAfter := List.mem_singleton_self 0
  obtain ⟨w, es, e, hw, hreq⟩ := joined_second .i386 Reactor.boot_fresh (q := firstOne)
    (by decide) (by decide) (n := 24) (by decide)
  obtain ⟨v, e', hv, hreq'⟩ := joined_alone .i386 Reactor.boot_fresh
  have hack := hiso.ackFrame_eq Reactor.boot_fresh hmem hw hv (q := wrappingHead) (t := 0)
    (by decide) (by decide) (by decide) (by decide) (by decide)
  have hstart : ∀ b : Buffers, 24 ≤ b.ptrReq.length →
      (b.ackFrame .i386 []).take 20 = b.ptrReq.take 20 := by
    intro b hlen
    have hreqMem : b.reqMem [] = b.ptrReq ++ b.memAfter := by
      rw [Buffers.reqMem, splice_zero, List.nil_append, List.length_nil, List.drop_zero]
    rw [Buffers.ackFrame_take_reqMem _ _ (by rw [hreqMem, List.length_append]; omega), hreqMem,
      List.take_append_of_le_length (by omega)]
  have hlen := hw.good.sized.req
  have hlen' := hv.good.sized.req
  have hfirst := congrArg (List.take 20) hack
  rw [List.take_zero, hstart _ (by rw [hlen]; decide), hstart _ (by rw [hlen']; decide), hreq,
    hreq', splice_zero] at hfirst
  exact absurd (congrArg (List.take 1) hfirst) (by decide)

/-- A request whose body is one byte that is not NUL. -/
def oneByteBody : List UInt8 :=
  List.replicate 12 0 ++ [0, 0, 11, 189] ++ List.replicate 4 0 ++ [0, 0, 0, 1] ++ [1]

/-- A request with a body of two NULs. -/
def twoNulBody : List UInt8 := List.replicate 23 0 ++ [2] ++ [0, 0]

/-- Buffers that hold no NUL up to `2 ^ 31` bytes behind the request buffer. -/
def longScan (memAfter : List UInt8) : Reactor :=
  { Reactor.boot with
    buffers := ⟨List.replicate MAXSOCKBUFF 1, memAfter, List.replicate MAXSOCKBUFF 0⟩ }

theorem longScan_fresh (memAfter : List UInt8) : (longScan memAfter).Fresh where
  umap := rfl
  sized := ⟨List.length_replicate, List.length_replicate⟩
  sending := rfl
  objects := rfl
  retired := rfl

theorem strlen_replicate_one (n : Nat) (rest : List UInt8) :
    strlen (List.replicate n 1 ++ rest) = n + strlen rest := by
  have hnone : (0 : UInt8) ∉ List.replicate n 1 := by
    intro hmem
    exact absurd (List.eq_of_mem_replicate hmem) (by decide)
  rw [strlen_append, if_neg hnone, List.length_replicate]

/-- Where the scan runs too far to be an `int` the acknowledgement depends on a
NUL that another client left. -/
theorem not_isolated_x86_64 : ¬ Isolated .x86_64 := by
  intro hiso
  obtain ⟨m, hm⟩ : ∃ m : List UInt8, m = List.replicate (2 ^ 31) 1 ++ [0] := ⟨_, rfl⟩
  have hmem : (0 : UInt8) ∈ (longScan m).buffers.memAfter := by
    show (0 : UInt8) ∈ m
    rw [hm]
    exact List.mem_append_right _ (List.mem_singleton_self 0)
  obtain ⟨w, es, e, hw, hreq⟩ := joined_second .x86_64 (longScan_fresh m) (q := twoNulBody)
    (Host.x86_64_LP64.noWrap _) (by decide) (n := 26) (by decide)
  obtain ⟨v, e', hv, hreq'⟩ := joined_alone .x86_64 (longScan_fresh m)
  have hack := hiso.ackFrame_eq (longScan_fresh m) hmem hw hv (q := oneByteBody) (t := 25)
    (by decide) (by decide) (by decide) (by decide) (by decide)
  have hframe : oneByteBody.take 25 = oneByteBody := rfl
  rw [hframe] at hack
  have hrest : ∀ b : Buffers, (b.reqMem oneByteBody).drop PkgHead.sizeof =
      1 :: (b.ptrReq.drop 25 ++ b.memAfter) := fun b => reqMem_drop b (by decide)
  -- alone, the scan runs into the memory behind the request buffer
  have hdecodes : v.buffers.decodes .x86_64 oneByteBody = true := by
    have hscan : strlen ((v.buffers.reqMem oneByteBody).drop PkgHead.sizeof) =
        65511 + 2 ^ 31 := by
      have hones : (1 : UInt8) :: ((List.replicate MAXSOCKBUFF 1).drop 25 ++
          (List.replicate (2 ^ 31) 1 ++ [0])) =
          List.replicate 65511 1 ++ (List.replicate (2 ^ 31) 1 ++ [0]) := by
        rw [List.drop_replicate, ← List.cons_append, ← List.replicate_succ]
        rfl
      rw [hrest, hreq', hv.memAfter]
      show strlen (1 :: ((List.replicate MAXSOCKBUFF 1).drop 25 ++ m)) = _
      rw [hm, hones, strlen_replicate_one, strlen_replicate_one]
      rfl
    refine @decodes3005_runaway .x86_64 _ 1 ?_ (Nat.le_refl 1) (by decide) ?_ ?_
    · rw [hrest]
      exact Nat.succ_pos _
    · rw [hscan]
      decide
    · rw [hscan]
      decide
  -- behind the other client it stops at the NUL that is left of its request
  have hscan : w.buffers.ScanFits oneByteBody := by
    intro _
    have hnul : ((w.buffers.reqMem oneByteBody).drop PkgHead.sizeof)[1]? = some 0 := by
      rw [hrest, hreq]
      rfl
    exact Nat.lt_of_le_of_lt (strlen_le_of_getElem? hnul) (by decide)
  rw [ackFrame_eq_ackOf .x86_64 (by decide) (by decide) hscan, Buffers.ackFrame, hdecodes,
    ofBytes_reqMem _ (by decide)] at hack
  have hlen := congrArg List.length hack
  rw [ackOf, replyFrame_length, replyFrame_length] at hlen
  exact absurd hlen (by decide)

/-- **Isolation fails** on a header that wraps and on a scan that runs away. -/
theorem stale_bytes_answered : ¬ Isolated .i386 ∧ ¬ Isolated .x86_64 :=
  ⟨not_isolated_i386, not_isolated_x86_64⟩

end MyGenSvr.Ports
