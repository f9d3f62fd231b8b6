import MyGenSvr.Ports.Reactor

/-!
# Framing over runs of a reactor

The history of every connection is that of the abstract receiver of
`Verified.Framing`, one delivery for each event that brought no error.

## Main results

* `Reads.good` — one readable event refines one delivery.
* `framing_exact`, `recv_buffer_safe` — what that says about the requests
  dispatched and about the receive buffer.
-/

namespace MyGenSvr.Ports

open MyGenSvr.Verified.Buffer
open MyGenSvr.Verified.ByteOrder
open MyGenSvr.Verified.Framing
open MyGenSvr.Verified.Transition

/-! ## The invariant -/

/-- A request that is exactly one frame. -/
def IsFrame (q : List UInt8) : Prop :=
  q.length = 24 + ofBeBytes ((q.drop 20).take 4) ∧ q.length ≤ 65534

/-- The history of an entry is that of the abstract receiver, which has
`bytes` buffered. -/
structure Books (e : Entry) (live : Bool) (bytes : List UInt8) : Prop where
  holds : Holds e.conn bytes
  refines : deliverAll pkgFramer .fresh e.hist.chunks = ⟨bytes, e.hist.requests, live⟩
  received : e.hist.requests.flatten ++ bytes = e.hist.received
  frames : ∀ q ∈ e.hist.requests, IsFrame q
  answered : e.hist.replies.length = e.hist.requests.length

/-- A connection in the map: its buffer is short of full. -/
structure EntryGood (fd : Int) (e : Entry) : Prop where
  books : ∃ bytes, Books e true bytes ∧ bytes.length ≤ 65533
  fd_eq : e.conn.iSockFd = fd

/-- A connection `HandleRead` closed. -/
def RetiredGood (why : CloseReason) (e : Entry) : Prop :=
  ∃ bytes, Books e (decide (why ≠ .badLength)) bytes ∧
    (why = .badLength → pkgFront bytes = .bad)

/-- The invariant of a reactor. -/
abbrev Good : Reactor → Prop := Upholds EntryGood RetiredGood

theorem frameLen_eq {bytes : List UInt8} (hlen : 24 ≤ bytes.length) :
    frameLen bytes = 24 + ofBeBytes ((bytes.drop 20).take 4) := by
  have hfour : ((bytes.drop 20).take 4).length = 4 := length_take_drop (by omega)
  have hlt := ofBeBytes_lt ((bytes.drop 20).take 4)
  rw [hfour] at hlt
  change _ < 2 ^ 32 at hlt
  rw [frameLen, beWord, UInt32.toNat_ofNat', Nat.mod_eq_of_lt hlt]
  exact Nat.add_comm _ _

theorem pkgFront_frame_isFrame {bytes : List UInt8} {n : Nat}
    (hfront : pkgFront bytes = .frame n) : IsFrame (bytes.take n) := by
  obtain ⟨hlen, rfl, hmax, hle⟩ := pkgFront_eq_frame.mp hfront
  have hge := frameLen_ge bytes
  have htakelen : (bytes.take (frameLen bytes)).length = frameLen bytes := by
    rw [List.length_take, Nat.min_eq_left hle]
  have hword : ((bytes.take (frameLen bytes)).drop 20).take 4 = (bytes.drop 20).take 4 := by
    rw [List.drop_take, List.take_take, Nat.min_eq_left (by omega)]
  rw [MAXFRAME_eq] at hmax
  refine ⟨?_, by rw [htakelen]; exact hmax⟩
  rw [htakelen, hword, frameLen_eq hlen]

/-- A front that is still incomplete leaves room in the buffer. -/
theorem pkgFront_more_length {bytes : List UInt8} (hfront : pkgFront bytes = .more) :
    bytes.length ≤ 65533 := by
  by_contra hlong
  by_cases hbad : MAXFRAME < frameLen bytes
  · have hfront' := pkgFront_eq_bad.mpr ⟨by omega, hbad⟩
    rw [hfront] at hfront'
    cases hfront'
  · rw [MAXFRAME_eq] at hbad
    have hfront' := (@pkgFront_eq_frame bytes (frameLen bytes)).mpr
      ⟨by omega, rfl, by rw [MAXFRAME_eq]; omega, by omega⟩
    rw [hfront] at hfront'
    cases hfront'

theorem receive_of_receives {o : RecvOutcome} (ho : o.Receives) (t : History) :
    t.receive o = { t with chunks := t.chunks ++ [o.bytes] } := if_pos ho

/-- A delivery to a live receiver, by the front of its buffer. -/
theorem deliver_live {α : Type*} (f : Framer α) (bytes : List α) (served : List (List α))
    (chunk : List α) :
    deliver f ⟨bytes, served, true⟩ chunk =
      match f.front (bytes ++ chunk) with
      | .more => ⟨bytes ++ chunk, served, true⟩
      | .bad => ⟨bytes ++ chunk, served, false⟩
      | .frame n => ⟨(bytes ++ chunk).drop n, served ++ [(bytes ++ chunk).take n], true⟩ := by
  exact if_pos rfl

section Step

variable {h : Host} {b : Buffers} {fd : Int} {e : Entry} {bytes : List UInt8}
  {o : RecvOutcome}

/-- **One event keeps the books of its connection.** -/
theorem Reads.good {r : EntryResult} (hr : Reads h b e bytes o r)
    (hsz : NoWrap h (bytes ++ o.bytes)) (hfd : e.conn.iSockFd = fd)
    (hbooks : Books e true bytes) : ResultUpholds EntryGood RetiredGood fd r := by
  have hnext : o.Receives → deliverAll pkgFramer .fresh (e.hist.receive o).chunks =
      deliver pkgFramer ⟨bytes, e.hist.requests, true⟩ o.bytes := by
    intro ho
    rw [receive_of_receives ho, deliverAll_concat, hbooks.refines]
  have hrequests := e.hist.receive_requests o
  have hreplies := e.hist.receive_replies o
  have hbytes : o.Receives → e.hist.requests.flatten ++ (bytes ++ o.bytes) =
      (e.hist.receive o).received := by
    intro ho
    rw [receive_of_receives ho, History.received, List.flatten_append,
      List.flatten_singleton, ← List.append_assoc, hbooks.received, History.received]
  cases hr with
  | lost ho =>
      refine ⟨bytes, ?_, fun hbad => absurd hbad o.lostReason_ne⟩
      rw [decide_eq_true o.lostReason_ne]
      exact hbooks
  | more c ho _ hfront hc hfd' hseq =>
      refine { books := ⟨_, ?_, pkgFront_more_length hfront⟩, fd_eq := hfd'.trans hfd }
      refine { holds := hc, refines := ?_, received := ?_, frames := ?_, answered := ?_ }
      · rw [hnext ho, deliver_live]
        simp only [pkgFramer, hfront, hrequests]
      · rw [hrequests]
        exact hbytes ho
      · rw [hrequests]
        exact hbooks.frames
      · rw [hreplies, hrequests]
        exact hbooks.answered
  | bad c ho _ hfront hc hfd' hseq =>
      refine ⟨_, ?_, fun _ => hfront⟩
      refine { holds := hc, refines := ?_, received := ?_, frames := ?_, answered := ?_ }
      · rw [hnext ho, deliver_live]
        simp only [pkgFramer, hfront, hrequests]
        rfl
      · rw [hrequests]
        exact hbytes ho
      · rw [hrequests]
        exact hbooks.frames
      · rw [hreplies, hrequests]
        exact hbooks.answered
  | wrapped c b' t ho hwrap => exact absurd hsz hwrap
  | frame c b' n ho _ hfront hle hc hfd' hseq hb' hmem _ =>
      obtain ⟨-, hn, -, -⟩ := pkgFront_eq_frame.mp hfront
      have hge := frameLen_ge (bytes ++ o.bytes)
      have hsock : MAXSOCKBUFF = 65535 := rfl
      refine ⟨{ books := ⟨(bytes ++ o.bytes).drop n, ?_, ?_⟩, fd_eq := hfd'.trans hfd }, hb'⟩
      · refine { holds := hc, refines := ?_, received := ?_, frames := ?_, answered := ?_ }
        · show deliverAll pkgFramer .fresh (e.hist.receive o).chunks = _
          rw [hnext ho, deliver_live]
          simp only [pkgFramer, hfront, History.dispatch, hrequests]
        · show ((e.hist.receive o).requests ++ [(bytes ++ o.bytes).take n]).flatten ++ _ =
            (e.hist.receive o).received
          rw [hrequests, List.flatten_append, List.flatten_singleton, List.append_assoc,
            List.take_append_drop, hbytes ho]
        · intro q hq
          simp only [History.dispatch, hrequests, List.mem_append, List.mem_singleton] at hq
          rcases hq with hold | rfl
          · exact hbooks.frames q hold
          · exact pkgFront_frame_isFrame hfront
        · simp only [History.dispatch, hrequests, hreplies, List.length_append,
            hbooks.answered, List.length_singleton]
      · rw [List.length_drop]
        omega

end Step

/-! ## The run -/

/-- A new connection starts with an empty buffer and an empty history. -/
theorem EntryGood.init (fd seq : Int) {block : List UInt8}
    (hblock : block.length = MAXSOCKBUFF) :
    EntryGood fd ⟨SockConn.Init fd seq block, .empty⟩ where
  books := ⟨[], ⟨Holds.init fd seq hblock, rfl, rfl, by simp [History.empty], rfl⟩,
    Nat.zero_le _⟩
  fd_eq := rfl

/-- Sending leaves the books alone. -/
theorem Books.send {e : Entry} {live : Bool} {bytes : List UInt8}
    (hbooks : Books e live bytes) (loop : SendLoop) (o : SendOutcome) :
    Books { e with hist := e.hist.send loop o } live bytes :=
  ⟨hbooks.holds, hbooks.refines, hbooks.received, hbooks.frames, hbooks.answered⟩

theorem EntryGood.send {fd : Int} {e : Entry} (he : EntryGood fd e) (loop : SendLoop)
    (o : SendOutcome) : EntryGood fd { e with hist := e.hist.send loop o } where
  books := by
    obtain ⟨bytes, hbooks, hlen⟩ := he.books
    exact ⟨bytes, hbooks.send loop o, hlen⟩
  fd_eq := he.fd_eq

/-- The framing invariant is one that each readable event keeps. -/
theorem good_invariant {h : Host} (h64 : h.LP64) :
    EntryInvariant h EntryGood RetiredGood where
  init := fun fd seq _ hblock => EntryGood.init fd seq hblock
  send := fun _ _ loop o he => he.send loop o
  read := by
    intro fd e b o he hb hfit
    obtain ⟨bytes, hbooks, -⟩ := he.books
    obtain ⟨r, hread, hr⟩ := Entry.handleRead_spec h hb hbooks.holds hfit
    exact ⟨r, hread, hr.good (h64.noWrap _) he.fd_eq hbooks⟩

theorem Good.step {h : Host} (h64 : h.LP64) {w : Reactor} (hw : Good w) {ev : Event}
    (hev : Enabled w ev) : ∃ w', w.next h ev = some w' ∧ Good w' :=
  Upholds.step (good_invariant h64) hw hev

/-- Every reachable state is good. -/
theorem reactor_good {h : Host} (h64 : h.LP64) {w : Reactor}
    (hw : (reactor h).Reachable w) : Good w := (good_invariant h64).reachable hw

/-! ## Serving a frame -/

theorem sendStart_of_pos {ack : List UInt8} (hack : 0 < ack.length) :
    sendStart ack = some ⟨ack, 0⟩ := if_neg (by omega)

/-- **A frame that has come whole is served**: an idle reactor that reads the
last bytes of it dispatches it and starts to send the acknowledgement. -/
theorem Good.read_frame {h : Host} {w : Reactor} (hw : Good w)
    (hidle : w.sending = none) {fd : Int} {e : Entry} (he : w.umapFdSockConn fd = some e)
    {bytes : List UInt8} (hbooks : Books e true bytes) (chunk : List UInt8)
    (hsz : NoWrap h (bytes ++ chunk)) (hone : 1 ≤ chunk.length)
    (hroom : bytes.length + chunk.length ≤ MAXSOCKBUFF) {n : Nat}
    (hfront : pkgFront (bytes ++ chunk) = .frame n) {ack : List UInt8}
    (hack : ack = w.buffers.ackFrame h ((bytes ++ chunk).take n)) :
    ∃ w' e', (reactor h).step w (.read fd (.data chunk)) w' ∧ Good w' ∧
      w'.umapFdSockConn fd = some e' ∧
      e'.hist = (e.hist.receive (.data chunk)).dispatch ((bytes ++ chunk).take n) ack ∧
      Books e' true ((bytes ++ chunk).drop n) ∧
      w'.sending = some (fd, ⟨ack, 0⟩) ∧
      (∀ fd', fd' ≠ fd → w'.umapFdSockConn fd' = w.umapFdSockConn fd') ∧
      w'.buffers.memAfter = w.buffers.memAfter ∧
      w'.buffers.ptrReq = splice w.buffers.ptrReq 0 ((bytes ++ chunk).take n) := by
  have hfit : (RecvOutcome.data chunk).Fits e.conn.requested := by
    refine ⟨hone, ?_⟩
    rw [hbooks.holds.requested_eq]
    omega
  have hbytes : (RecvOutcome.data chunk).bytes = chunk := rfl
  have henabled : Enabled w (.read fd (.data chunk)) := by
    refine ⟨hidle, ?_⟩
    intro e' he'
    rw [Option.mem_def, he, Option.some.injEq] at he'
    exact he' ▸ hfit
  obtain ⟨r, hread, hr⟩ := Entry.handleRead_spec h hw.sized hbooks.holds hfit
  have hgood := hr.good hsz (hw.entries fd e he).fd_eq hbooks
  have hnext : w.next h (.read fd (.data chunk)) = some (w.conclude fd r) := by
    simp only [Reactor.next, he, hread, Option.map_some]
  have hstart := sendStart_of_pos
    (w.buffers.ackFrame_length_pos h ((bytes ++ chunk).take n))
  cases hr with
  | lost ho => exact absurd trivial ho
  | more c ho _ hmore =>
      rw [hbytes, hfront] at hmore
      cases hmore
  | bad c ho _ hbad =>
      rw [hbytes, hfront] at hbad
      cases hbad
  | wrapped c b' t ho hwrap => exact absurd hsz hwrap
  | frame c b' m ho _ hm hle hc hfd hseq hb' hmem hreq =>
      rw [hbytes] at hm hc hgood hnext
      have hmn : m = n := by
        rw [hfront, Front.frame.injEq] at hm
        exact hm.symm
      subst hmn
      subst hack
      obtain ⟨bytes', hbooks', -⟩ := hgood.1.books
      have hsame : bytes' = (bytes ++ chunk).drop m := by
        rw [← hbooks'.holds.buffered_eq, ← hc.buffered_eq]
      refine ⟨_, _, ⟨henabled, hnext⟩, Upholds.conclude hw hgood, Function.update_self _ _ _, rfl,
        hsame ▸ hbooks', ?_, fun fd' hne => Function.update_of_ne hne _ _, hmem, hreq⟩
      show Option.map (fun loop => (fd, loop))
        (sendStart (w.buffers.ackFrame h ((bytes ++ chunk).take m))) = _
      rw [hstart]
      rfl

/-- A new connection on a descriptor that has none. -/
theorem Good.read_newConn {h : Host} {w : Reactor} (hidle : w.sending = none) {fd : Int}
    (hfd : 0 < fd) (hkey : w.umapFdSockConn fd = none) {block : List UInt8}
    (hblock : block.length = MAXSOCKBUFF) :
    ∃ w' e', (reactor h).step w (.newConn fd true block) w' ∧
      w'.umapFdSockConn fd = some e' ∧ e'.hist = .empty ∧ Books e' true [] ∧
      w'.sending = none ∧
      (∀ fd', fd' ≠ fd → w'.umapFdSockConn fd' = w.umapFdSockConn fd') ∧
      w'.buffers = w.buffers ∧ (Good w → Good w') := by
  have hnext : w.newConn fd true block =
      { w with
        connSeq := w.connSeq + 1
        objects := w.objects ++ [w.connSeq + 1]
        umapFdSockConn := insertConn w.umapFdSockConn fd
          ⟨SockConn.Init fd (w.connSeq + 1) block, .empty⟩ } := by
    unfold Reactor.newConn
    rw [if_neg (by omega)]
    rfl
  refine ⟨_, ⟨SockConn.Init fd (w.connSeq + 1) block, .empty⟩, ⟨⟨hidle, hblock⟩, rfl⟩, ?_,
    rfl, ?_, ?_, ?_, ?_, ?_⟩
  · exact newConn_self w hfd hkey block
  · exact ⟨Holds.init fd _ hblock, rfl, rfl, by simp [History.empty], rfl⟩
  · rw [hnext]
    exact hidle
  · intro fd' hne
    rw [hnext]
    show insertConn w.umapFdSockConn fd _ fd' = _
    unfold insertConn
    rw [hkey]
    exact Function.update_of_ne hne _ _
  · rw [hnext]
  · intro hw
    exact Upholds.newConn hw (EntryGood.init fd _ hblock)

/-- A turn of the `SendMsg` loop touches the history of one connection. -/
theorem step_send {h : Host} {w : Reactor} {fd : Int} {loop : SendLoop}
    (hsend : w.sending = some (fd, loop)) {e : Entry} (he : w.umapFdSockConn fd = some e)
    {o : SendOutcome} (hfit : o.Fits loop.p.length) :
    ∃ w', (reactor h).step w (.send o) w' ∧
      w'.umapFdSockConn fd = some { e with hist := e.hist.send loop o } ∧
      w'.sending = (match sendStep loop o with
        | .again loop' => some (fd, loop')
        | .done _ => none) ∧
      w'.buffers = w.buffers ∧
      (∀ fd', fd' ≠ fd → w'.umapFdSockConn fd' = w.umapFdSockConn fd') ∧
      (Good w → Good w') := by
  refine ⟨w.sendTurn fd loop o, ⟨⟨_, hsend, hfit⟩, ?_⟩, ?_, rfl, rfl,
    fun fd' hne => Function.update_of_ne hne _ _, fun hw => hw.sendTurn ?_⟩
  · simp only [Reactor.next, hsend]
  · simp only [Reactor.sendTurn, Function.update_self, he, Option.map_some]
  · exact fun _ _ loop o he => he.send loop o

/-! ## Framing, and the receive buffer -/

/-- **Framing loses, duplicates and reorders nothing.**  In every reachable
state the requests dispatched on an open connection, followed by the buffered
bytes, are the bytes received; every request is one frame; and a connection was
closed for its length only on bytes that announce too much. -/
theorem framing_exact (h : Host) (h64 : h.LP64) (w : Reactor)
    (hw : (reactor h).Reachable w) :
    (∀ fd e, w.umapFdSockConn fd = some e →
      e.hist.requests.flatten ++ e.conn.buffered = e.hist.received ∧
      ∀ q ∈ e.hist.requests, IsFrame q) ∧
    (∀ fd why e, (fd, why, e) ∈ w.retired →
      e.hist.requests.flatten ++ e.conn.buffered = e.hist.received ∧
      (∀ q ∈ e.hist.requests, IsFrame q) ∧
      (why = .badLength →
        24 ≤ e.conn.buffered.length ∧
        65534 < 24 + ofBeBytes ((e.conn.buffered.drop 20).take 4))) := by
  have hgood := reactor_good h64 hw
  constructor
  · intro fd e he
    obtain ⟨bytes, hbooks, -⟩ := (hgood.entries fd e he).books
    rw [hbooks.holds.buffered_eq]
    exact ⟨hbooks.received, hbooks.frames⟩
  · intro fd why e hmem
    obtain ⟨bytes, hbooks, hbad⟩ := hgood.retired _ hmem
    rw [hbooks.holds.buffered_eq]
    refine ⟨hbooks.received, hbooks.frames, ?_⟩
    intro hwhy
    obtain ⟨hlen, hmax⟩ := pkgFront_eq_bad.mp (hbad hwhy)
    rw [frameLen_eq hlen, MAXFRAME_eq] at hmax
    exact ⟨hlen, hmax⟩

/-- A reactor with empty maps and zeroed buffers. -/
def Reactor.boot : Reactor where
  umapFdSockConn := fun _ => none
  connSeq := 0
  buffers := ⟨List.replicate MAXSOCKBUFF 0, [0], List.replicate MAXSOCKBUFF 0⟩
  sending := none
  objects := []
  retired := []

theorem Reactor.boot_fresh : Reactor.boot.Fresh where
  umap := rfl
  sized := ⟨List.length_replicate, List.length_replicate⟩
  sending := rfl
  objects := rfl
  retired := rfl

/-- Memory for a receive buffer. -/
def emptyBlock : List UInt8 := List.replicate MAXSOCKBUFF 0

theorem emptyBlock_length : emptyBlock.length = MAXSOCKBUFF := List.length_replicate

theorem boot_reachable {h : Host} {es : List Event} {w : Reactor}
    (hrun : (reactor h).Run .boot es w) : (reactor h).Reachable w :=
  ⟨_, es, Reactor.boot_fresh, hrun⟩

/-- A header of zeroes is a frame of its own. -/
theorem pkgFront_zero : pkgFront (List.replicate 24 0) = .frame 24 := by decide

/-- A request of a client that numbers itself 1 in the first byte. -/
def firstOne : List UInt8 := 1 :: List.replicate 23 0

/-- From the boot state, a client on descriptor 5 gets a request served. -/
theorem boot_serves (h : Host) (h64 : h.LP64) {q : List UInt8} {n : Nat}
    (hroom : q.length ≤ MAXSOCKBUFF) (hfront : pkgFront q = .frame n) {ack : List UInt8}
    (hack : ack = Reactor.boot.buffers.ackFrame h (q.take n)) :
    ∃ w e, (reactor h).Run .boot
        [.newConn 5 true (List.replicate MAXSOCKBUFF 0), .read 5 (.data q)] w ∧
      w.umapFdSockConn 5 = some e ∧
      e.hist = ⟨[q], [q.take n], [ack], [], false⟩ ∧ Books e true (q.drop n) ∧
      w.sending = some (5, ⟨ack, 0⟩) := by
  have hlen := (pkgFront_eq_frame.mp hfront).1
  obtain ⟨w₁, e₁, hstep₁, he₁, hhist₁, hbooks₁, hidle₁, -, hbuf₁, -⟩ :=
    @Good.read_newConn h Reactor.boot rfl 5 (by decide) rfl _
      (List.length_replicate : (List.replicate MAXSOCKBUFF (0 : UInt8)).length = _)
  have hreach₁ := (System.Reachable.init Reactor.boot_fresh).step hstep₁
  obtain ⟨w₂, e₂, hstep₂, -, he₂, hhist₂, hbooks₂, hsend₂, -, -⟩ :=
    (reactor_good h64 hreach₁).read_frame hidle₁ he₁ hbooks₁ q (h64.noWrap _) (by omega)
      (by rw [List.length_nil]; omega) hfront (hbuf₁ ▸ hack)
  refine ⟨w₂, e₂, (System.Run.single hstep₁).append (.single hstep₂), he₂, ?_, hbooks₂, hsend₂⟩
  rw [hhist₂, hhist₁]
  rfl

/-- The same client once `SendMsg` has returned, after a single `send`. -/
theorem boot_serves_and_sends (h : Host) (h64 : h.LP64) {q : List UInt8} {n : Nat}
    (hroom : q.length ≤ MAXSOCKBUFF) (hfront : pkgFront q = .frame n) {ack : List UInt8}
    (hack : ack = Reactor.boot.buffers.ackFrame h (q.take n)) {o : SendOutcome}
    (hfit : o.Fits ack.length) {ret : Int} (hdone : sendStep ⟨ack, 0⟩ o = .done ret) :
    ∃ w e, (reactor h).Reachable w ∧ w.umapFdSockConn 5 = some e ∧
      e.hist = History.send ⟨[q], [q.take n], [ack], [], false⟩ ⟨ack, 0⟩ o ∧
      Books e true (q.drop n) ∧ w.sending = none := by
  obtain ⟨w₁, e₁, hrun₁, he₁, hhist₁, hbooks₁, hsend₁⟩ :=
    boot_serves h h64 hroom hfront hack
  obtain ⟨w₂, hstep₂, he₂, hidle₂, -⟩ := @step_send h w₁ 5 _ hsend₁ e₁ he₁ o hfit
  rw [hdone] at hidle₂
  refine ⟨w₂, _, (boot_reachable hrun₁).step hstep₂, he₂, ?_, hbooks₁.send _ _, hidle₂⟩
  rw [hhist₁]

/-- One request of 24 zero bytes: dispatched, and nothing left over. -/
theorem framing_exact_one_request :
    ∃ (w : Reactor) (e : Entry), w.umapFdSockConn 5 = some e ∧
      e.hist.requests = [List.replicate 24 0] ∧
      e.hist.requests.flatten ++ e.conn.buffered = e.hist.received ∧
      ∀ q ∈ e.hist.requests, IsFrame q := by
  obtain ⟨w, e, hrun, he, hhist, -, -⟩ :=
    boot_serves .x86_64 Host.x86_64_LP64 (by decide) pkgFront_zero rfl
  have hframes :=
    (framing_exact .x86_64 Host.x86_64_LP64 w (boot_reachable hrun)).1 5 e he
  refine ⟨w, e, he, ?_, hframes⟩
  rw [hhist]
  rfl

/-- **The receive buffer never overflows and never wedges.**  Every open
connection has at least one byte of room and asks `recv` for exactly its room;
and no event makes a copy outside a buffer. -/
theorem recv_buffer_safe (h : Host) (h64 : h.LP64) (w : Reactor)
    (hw : (reactor h).Reachable w) :
    (∀ fd e, w.umapFdSockConn fd = some e →
      e.conn.ptrRecvBuff.length = MAXSOCKBUFF ∧
      e.conn.uiRecvLen.toNat ≤ 65533 ∧
      1 ≤ e.conn.requested ∧
      e.conn.uiRecvLen.toNat + e.conn.requested = MAXSOCKBUFF) ∧
    (∀ ev, Enabled w ev → (w.next h ev).isSome) := by
  have hgood := reactor_good h64 hw
  constructor
  · intro fd e he
    obtain ⟨bytes, hbooks, hlen⟩ := (hgood.entries fd e he).books
    have hsock : MAXSOCKBUFF = 65535 := rfl
    rw [hbooks.holds.requested_eq, hbooks.holds.len]
    exact ⟨hbooks.holds.block, hlen, by omega, by omega⟩
  · intro ev hev
    obtain ⟨w', hnext, -⟩ := hgood.step h64 hev
    rw [hnext]
    rfl

/-- After one request the whole buffer is free again, and the first turn of
`SendMsg` is safe. -/
theorem recv_buffer_safe_one_request :
    ∃ (w : Reactor) (e : Entry), w.umapFdSockConn 5 = some e ∧
      e.hist.requests = [List.replicate 24 0] ∧
      e.conn.uiRecvLen.toNat ≤ 65533 ∧ 1 ≤ e.conn.requested ∧
      (w.next .x86_64 (.send (.sent 1))).isSome := by
  obtain ⟨w, e, hrun, he, hhist, -, hsend⟩ :=
    boot_serves .x86_64 Host.x86_64_LP64 (by decide) pkgFront_zero rfl
  obtain ⟨hconn, hsafe⟩ :=
    recv_buffer_safe .x86_64 Host.x86_64_LP64 w (boot_reachable hrun)
  obtain ⟨-, hlen, hone, -⟩ := hconn 5 e he
  refine ⟨w, e, he, ?_, hlen, hone, hsafe _ ⟨_, hsend, ?_⟩⟩
  · rw [hhist]
    rfl
  · exact Buffers.ackFrame_length_pos _ _ _

end MyGenSvr.Ports
