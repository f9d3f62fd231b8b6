import MyGenSvr.Ports.HandleRead
import MyGenSvr.Verified.PartialMap
import MyGenSvr.Verified.Transition

/-!
# Runs of a reactor

One `MyReactor` object as a transition system: connections are taken in,
readable events are handled, and while a reply is being sent the only steps are
the turns of the `SendMsg` loop.  A `History` is kept with each connection for
the specifications; no step looks at it.

## Main results

* `Entry.handleRead_spec` — all that one readable event can do to a connection.
* `EntryInvariant.reachable` — a property that new connections have and that
  sending and reading keep holds of every connection in every reachable state.
-/

namespace MyGenSvr.Ports

open MyGenSvr.Verified.Buffer
open MyGenSvr.Verified.ByteOrder
open MyGenSvr.Verified.Framing
open MyGenSvr.Verified.PartialMap
open MyGenSvr.Verified.Transition

/-- What happened on a connection: the chunks `RecvMsg` brought, the requests
handed to `DealService`, the acknowledgements handed to `SendMsg`, the bytes
the kernel accepted, and whether `SendMsg` has returned -1. -/
structure History where
  chunks : List (List UInt8)
  requests : List (List UInt8)
  replies : List (List UInt8)
  wire : List UInt8
  gaveUp : Bool
  deriving DecidableEq, Repr

def History.empty : History := ⟨[], [], [], [], false⟩

/-- All bytes received. -/
def History.received (t : History) : List UInt8 := t.chunks.flatten

def History.receive (t : History) (o : RecvOutcome) : History :=
  if o.Receives then { t with chunks := t.chunks ++ [o.bytes] } else t

@[simp] theorem History.receive_requests (t : History) (o : RecvOutcome) :
    (t.receive o).requests = t.requests := by
  unfold History.receive
  split <;> rfl

@[simp] theorem History.receive_replies (t : History) (o : RecvOutcome) :
    (t.receive o).replies = t.replies := by
  unfold History.receive
  split <;> rfl

def History.dispatch (t : History) (request ack : List UInt8) : History :=
  { t with requests := t.requests ++ [request], replies := t.replies ++ [ack] }

def History.send (t : History) (loop : SendLoop) (o : SendOutcome) : History :=
  { t with
    wire := t.wire ++ loop.accepted o
    gaveUp := t.gaveUp || decide (sendStep loop o = .done (-1)) }

/-- A connection and its history. -/
structure Entry where
  conn : SockConn
  hist : History
  deriving DecidableEq, Repr

/-- How `HandleRead` leaves an entry; `ack` is what is handed to `SendMsg`. -/
inductive EntryResult where
  | keep (e : Entry)
  | close (why : CloseReason) (e : Entry)
  | reply (e : Entry) (b : Buffers) (ack : List UInt8)
  deriving DecidableEq, Repr

/-- `HandleRead` with the history kept. -/
def Entry.handleRead (h : Host) (b : Buffers) (e : Entry) (o : RecvOutcome) :
    Option EntryResult :=
  (HandleRead h b e.conn o).map fun
    | .keep c => .keep ⟨c, e.hist.receive o⟩
    | .close why c => .close why ⟨c, e.hist.receive o⟩
    | .reply c b iReqSize iAckSize =>
        let request := b.ptrReq.take iReqSize.toNat
        let ack := b.ptrAck.take iAckSize.toNat
        .reply ⟨c, (e.hist.receive o).dispatch request ack⟩ b ack

/-! ## One readable event -/

/-- All that a readable event can do to an entry with `bytes` buffered.  The
last case needs a 32-bit `size_t` and a header whose total wraps. -/
inductive Reads (h : Host) (b : Buffers) (e : Entry) (bytes : List UInt8)
    (o : RecvOutcome) : EntryResult → Prop where
  | lost : ¬ o.Receives → Reads h b e bytes o (.close o.lostReason e)
  | more (c : SockConn) : o.Receives → NoWrap h (bytes ++ o.bytes) →
      pkgFront (bytes ++ o.bytes) = .more →
      Holds c (bytes ++ o.bytes) → c.iSockFd = e.conn.iSockFd → c.iSeq = e.conn.iSeq →
      Reads h b e bytes o (.keep ⟨c, e.hist.receive o⟩)
  | bad (c : SockConn) : o.Receives → NoWrap h (bytes ++ o.bytes) →
      pkgFront (bytes ++ o.bytes) = .bad →
      Holds c (bytes ++ o.bytes) → c.iSockFd = e.conn.iSockFd → c.iSeq = e.conn.iSeq →
      Reads h b e bytes o (.close .badLength ⟨c, e.hist.receive o⟩)
  | frame (c : SockConn) (b' : Buffers) (n : Nat) : o.Receives →
      NoWrap h (bytes ++ o.bytes) → pkgFront (bytes ++ o.bytes) = .frame n →
      (bytes ++ o.bytes).length ≤ MAXSOCKBUFF →
      Holds c ((bytes ++ o.bytes).drop n) →
      c.iSockFd = e.conn.iSockFd → c.iSeq = e.conn.iSeq →
      b'.Sized → b'.memAfter = b.memAfter →
      b'.ptrReq = splice b.ptrReq 0 ((bytes ++ o.bytes).take n) →
      Reads h b e bytes o
        (.reply
          ⟨c, (e.hist.receive o).dispatch ((bytes ++ o.bytes).take n)
            (b.ackFrame h ((bytes ++ o.bytes).take n))⟩
          b' (b.ackFrame h ((bytes ++ o.bytes).take n)))
  | wrapped (c : SockConn) (b' : Buffers) (t : Nat) : o.Receives →
      ¬ NoWrap h (bytes ++ o.bytes) → t = h.sizeT (frameLen (bytes ++ o.bytes)) →
      Holds c ((bytes ++ o.bytes).drop t) →
      c.iSockFd = e.conn.iSockFd → c.iSeq = e.conn.iSeq →
      b'.Sized → b'.memAfter = b.memAfter →
      Reads h b e bytes o
        (.reply
          ⟨c, (e.hist.receive o).dispatch ((bytes ++ o.bytes).take t)
            (b.ackFrame h ((bytes ++ o.bytes).take t))⟩
          b' (b.ackFrame h ((bytes ++ o.bytes).take t)))

theorem take_of_splice {m m' bytes : List UInt8} {t : Nat}
    (hm : m' = splice m 0 (bytes.take t)) (hle : t ≤ bytes.length) :
    m'.take t = bytes.take t := by
  have hlen : (bytes.take t).length = t := by
    rw [List.length_take, Nat.min_eq_left hle]
  have hleft : (bytes.take t ++ m.drop (bytes.take t).length).take (bytes.take t).length =
      bytes.take t := List.take_left
  rw [hlen] at hleft
  rw [hm, splice_zero, hlen, hleft]

/-- **One readable event.**  No copy leaves its buffer, and what happens to the
connection is decided by the front of the buffered bytes. -/
theorem Entry.handleRead_spec (h : Host) {b : Buffers} (hb : b.Sized)
    {e : Entry} {bytes : List UInt8} (he : Holds e.conn bytes) {o : RecvOutcome}
    (hfit : o.Fits e.conn.requested) :
    ∃ r, e.handleRead h b o = some r ∧ Reads h b e bytes o r := by
  by_cases ho : o.Receives
  · obtain ⟨c, hread, hc, hfd, hseq⟩ := HandleRead_received (h := h) (b := b) he ho hfit
    unfold Entry.handleRead
    rw [hread]
    by_cases hsz : NoWrap h (bytes ++ o.bytes)
    · cases hfront : pkgFront (bytes ++ o.bytes) with
      | more =>
          rw [HandleBuffered_more hsz hc hfront]
          exact ⟨_, rfl, .more c ho hsz hfront hc hfd hseq⟩
      | bad =>
          rw [HandleBuffered_bad hsz hc hfront]
          exact ⟨_, rfl, .bad c ho hsz hfront hc hfd hseq⟩
      | frame n =>
          obtain ⟨hlen, hn, hmax, hle⟩ := pkgFront_eq_frame.mp hfront
          have htotal : h.sizeT (frameLen (bytes ++ o.bytes)) = n := by
            rw [hsz.sizeT_eq hlen, hn]
          obtain ⟨c', b', hbuf, hc', hfd', hseq', hb', hmem, hreq, hack⟩ :=
            HandleBuffered_dispatch hb hc hlen htotal hmax hle
          rw [hbuf]
          refine ⟨_, rfl, ?_⟩
          simp only [Int.toNat_natCast, take_of_splice hreq hle, hack]
          exact .frame c' b' n ho hsz hfront hc.le hc' (hfd'.trans hfd) (hseq'.trans hseq)
            hb' hmem hreq
    · obtain ⟨hlen, hshort⟩ := sizeT_lt_of_wrap hsz
      have hle : h.sizeT (frameLen (bytes ++ o.bytes)) ≤ (bytes ++ o.bytes).length := by omega
      obtain ⟨c', b', hbuf, hc', hfd', hseq', hb', hmem, hreq, hack⟩ :=
        HandleBuffered_dispatch hb hc hlen rfl (by rw [MAXFRAME_eq]; omega) hle
      rw [hbuf]
      refine ⟨_, rfl, ?_⟩
      simp only [Int.toNat_natCast, take_of_splice hreq hle, hack]
      exact .wrapped c' b' _ ho hsz rfl hc' (hfd'.trans hfd) (hseq'.trans hseq) hb' hmem
  · have hkeep : e.hist.receive o = e.hist := if_neg ho
    cases o with
    | data chunk => exact absurd trivial ho
    | eof =>
        unfold Entry.handleRead
        rw [HandleRead_eof, Option.map_some, hkeep]
        exact ⟨_, rfl, .lost ho⟩
    | error errno =>
        unfold Entry.handleRead
        rw [HandleRead_failed ho, Option.map_some, hkeep]
        exact ⟨_, rfl, .lost ho⟩

/-- `HandleRead` finds no reason to close the connection: something is received, or
nothing is there yet, and the front of the bytes does not announce too much. -/
def Entry.Stays (h : Host) (e : Entry) (o : RecvOutcome) : Prop :=
  o.Receives ∧ (NoWrap h (e.conn.buffered ++ o.bytes) →
    pkgFront (e.conn.buffered ++ o.bytes) ≠ .bad)

/-- A connection is left open exactly where it stays, and open or closed it is the same
object. -/
theorem Reads.stays_iff {h : Host} {b : Buffers} {e : Entry} {o : RecvOutcome} {r : EntryResult}
    {bytes : List UInt8} (he : Holds e.conn bytes) (hr : Reads h b e bytes o r) :
    (e.Stays h o ∧ ∃ e', e'.conn.iSeq = e.conn.iSeq ∧
        ((r = .keep e') ∨ ∃ b' ack, r = .reply e' b' ack)) ∨
      (¬ e.Stays h o ∧ ∃ why e', r = .close why e') := by
  unfold Entry.Stays
  rw [he.buffered_eq]
  cases hr with
  | lost ho => exact Or.inr ⟨fun hstays => ho hstays.1, _, _, rfl⟩
  | more c ho hsz hfront _ _ hseq =>
      refine Or.inl ⟨⟨ho, fun _ hbad => ?_⟩, _, hseq, Or.inl rfl⟩
      rw [hfront] at hbad
      cases hbad
  | bad c ho hsz hfront => exact Or.inr ⟨fun hstays => hstays.2 hsz hfront, _, _, rfl⟩
  | frame c b' n ho hsz hfront _ _ _ hseq =>
      refine Or.inl ⟨⟨ho, fun _ hbad => ?_⟩, ⟨c, _⟩, hseq, Or.inr ⟨_, _, rfl⟩⟩
      rw [hfront] at hbad
      cases hbad
  | wrapped c b' t ho hwrap _ _ _ hseq =>
      exact Or.inl ⟨⟨ho, fun hsz => absurd hsz hwrap⟩, ⟨c, _⟩, hseq, Or.inr ⟨_, _, rfl⟩⟩

/-! ## The transition system -/

/-- A reactor.  `objects` are the `SockConn` objects allocated and not deleted,
by sequence number; `retired` are the connections `HandleRead` closed. -/
structure Reactor where
  umapFdSockConn : Int → Option Entry
  connSeq : Int
  buffers : Buffers
  sending : Option (Int × SendLoop)
  objects : List Int
  retired : List (Int × CloseReason × Entry)

/-- What happens to a reactor. -/
inductive Event where
  /-- `HandleNewConn` pops `fd`; `getpeername` succeeds or not, and the receive
  buffer is allocated in `block`. -/
  | newConn (fd : Int) (peername : Bool) (block : List UInt8)
  /-- `HandleRead(fd)`, with what `recv` returns. -/
  | read (fd : Int) (o : RecvOutcome)
  /-- A turn of the loop of `SendMsg`, with what `send` returns. -/
  | send (o : SendOutcome)
  deriving DecidableEq, Repr

/-- What the thread can do next, and what the kernel can answer. -/
def Enabled (w : Reactor) : Event → Prop
  | .newConn _ _ block => w.sending = none ∧ block.length = MAXSOCKBUFF
  | .read fd o => w.sending = none ∧ ∀ e ∈ w.umapFdSockConn fd, o.Fits e.conn.requested
  | .send o => ∃ s ∈ w.sending, o.Fits s.2.p.length

/-- `insert` on the connection map: a key that is there keeps its value. -/
def insertConn (m : Int → Option Entry) (fd : Int) (e : Entry) : Int → Option Entry :=
  if (m fd).isSome then m else Function.update m fd (some e)

/-- One pass of the loop of `HandleNewConn`. -/
def Reactor.newConn (w : Reactor) (fd : Int) (peername : Bool) (block : List UInt8) :
    Reactor :=
  if fd ≤ 0 then w
  else
    let seq := w.connSeq + 1
    if peername then
      { w with
        connSeq := seq
        objects := w.objects ++ [seq]
        umapFdSockConn :=
          insertConn w.umapFdSockConn fd ⟨SockConn.Init fd seq block, .empty⟩ }
    else { w with connSeq := seq }

/-- The state `HandleRead` leaves, or the start of its `SendMsg`. -/
def Reactor.conclude (w : Reactor) (fd : Int) : EntryResult → Reactor
  | .keep e => { w with umapFdSockConn := Function.update w.umapFdSockConn fd (some e) }
  | .close why e =>
      { w with
        umapFdSockConn := Function.update w.umapFdSockConn fd none
        retired := w.retired ++ [(fd, why, e)] }
  | .reply e b ack =>
      { w with
        umapFdSockConn := Function.update w.umapFdSockConn fd (some e)
        buffers := b
        sending := (sendStart ack).map fun loop => (fd, loop) }

/-- The state after a turn of the `SendMsg` loop for `fd`. -/
def Reactor.sendTurn (w : Reactor) (fd : Int) (loop : SendLoop) (o : SendOutcome) :
    Reactor :=
  { w with
    umapFdSockConn := Function.update w.umapFdSockConn fd
      ((w.umapFdSockConn fd).map fun e => { e with hist := e.hist.send loop o })
    sending :=
      match sendStep loop o with
      | .again loop' => some (fd, loop')
      | .done _ => none }

/-- The state after an event; `none` is a fault. -/
def Reactor.next (h : Host) (w : Reactor) : Event → Option Reactor
  | .newConn fd peername block => some (w.newConn fd peername block)
  | .read fd o =>
      match w.umapFdSockConn fd with
      | none => some w
      | some e => (e.handleRead h w.buffers o).map (w.conclude fd)
  | .send o =>
      match w.sending with
      | none => none
      | some (fd, loop) => some (w.sendTurn fd loop o)

/-- A reactor that has taken in no connection yet. -/
structure Reactor.Fresh (w : Reactor) : Prop where
  umap : w.umapFdSockConn = fun _ => none
  sized : w.buffers.Sized
  sending : w.sending = none
  objects : w.objects = []
  retired : w.retired = []

/-- The runs of a reactor. -/
def reactor (h : Host) : System Reactor Event where
  init := Reactor.Fresh
  step w ev w' := Enabled w ev ∧ w.next h ev = some w'

/-! ## Invariants of connections -/

theorem insertConn_cases (m : Int → Option Entry) (fd : Int) (e : Entry) {fd' : Int}
    {e' : Entry} (h : insertConn m fd e fd' = some e') :
    m fd' = some e' ∨ (fd' = fd ∧ e' = e ∧ m fd = none) := by
  unfold insertConn at h
  by_cases hkey : (m fd).isSome
  · rw [if_pos hkey] at h
    exact Or.inl h
  · rw [if_neg hkey] at h
    rcases update_eq_some_iff.mp h with ⟨hfd, hnew⟩ | ⟨-, hold⟩
    · exact Or.inr ⟨hfd, hnew.symm, by simpa using hkey⟩
    · exact Or.inl hold

/-- The keys after an insertion. -/
theorem newConn_isSome (w : Reactor) {fd : Int} (hfd : 0 < fd) (block : List UInt8)
    (fd' : Int) : ((w.newConn fd true block).umapFdSockConn fd').isSome ↔
      fd' = fd ∨ (w.umapFdSockConn fd').isSome := by
  unfold Reactor.newConn
  rw [if_neg (by omega), if_pos rfl]
  show (insertConn w.umapFdSockConn fd _ fd').isSome ↔ _
  unfold insertConn
  by_cases hkey : (w.umapFdSockConn fd).isSome
  · rw [if_pos hkey]
    constructor
    · exact Or.inr
    · rintro (rfl | hold)
      · exact hkey
      · exact hold
  · rw [if_neg hkey]
    by_cases hfd' : fd' = fd
    · subst hfd'
      simp
    · rw [Function.update_of_ne hfd']
      simp [hfd']

/-- A connection whose name cannot be read is not inserted. -/
theorem newConn_nameless (w : Reactor) (fd : Int) (block : List UInt8) :
    (w.newConn fd false block).umapFdSockConn = w.umapFdSockConn := by
  unfold Reactor.newConn
  split <;> rfl

theorem newConn_sending (w : Reactor) (fd : Int) (peername : Bool) (block : List UInt8) :
    (w.newConn fd peername block).sending = w.sending := by
  unfold Reactor.newConn
  split
  · rfl
  · cases peername <;> rfl

/-- A new key gets a connection with an empty receive buffer. -/
theorem newConn_self (w : Reactor) {fd : Int} (hfd : 0 < fd)
    (hkey : w.umapFdSockConn fd = none) (block : List UInt8) :
    (w.newConn fd true block).umapFdSockConn fd =
      some ⟨SockConn.Init fd (w.connSeq + 1) block, .empty⟩ := by
  unfold Reactor.newConn
  rw [if_neg (by omega), if_pos rfl]
  show insertConn w.umapFdSockConn fd _ fd = _
  unfold insertConn
  rw [hkey]
  exact Function.update_self _ _ _

/-- A result that leaves the connection open. -/
def EntryResult.Open : EntryResult → Prop
  | .close _ _ => False
  | _ => True

theorem conclude_open_isSome (w : Reactor) {fd : Int} {r : EntryResult} (hr : r.Open)
    (hkey : (w.umapFdSockConn fd).isSome) (fd' : Int) :
    ((w.conclude fd r).umapFdSockConn fd').isSome = (w.umapFdSockConn fd').isSome := by
  cases r with
  | keep e => exact isSome_update hkey fd'
  | close why e => exact hr.elim
  | reply e b ack => exact isSome_update hkey fd'

theorem conclude_close_isSome (w : Reactor) (fd : Int) (why : CloseReason) (e : Entry)
    (fd' : Int) : ((w.conclude fd (.close why e)).umapFdSockConn fd').isSome ↔
      fd' ≠ fd ∧ (w.umapFdSockConn fd').isSome :=
  isSome_erase fd'

theorem sendTurn_isSome (w : Reactor) (fd : Int) (loop : SendLoop) (o : SendOutcome)
    (fd' : Int) : ((w.sendTurn fd loop o).umapFdSockConn fd').isSome =
      (w.umapFdSockConn fd').isSome :=
  isSome_alter fd'

/-- A property of the open connections and one of the closed ones. -/
structure Upholds (P : Int → Entry → Prop) (R : CloseReason → Entry → Prop)
    (w : Reactor) : Prop where
  sized : w.buffers.Sized
  entries : ∀ fd, ∀ e ∈ w.umapFdSockConn fd, P fd e
  retired : ∀ r ∈ w.retired, R r.2.1 r.2.2

/-- What `HandleRead` has to leave for these properties. -/
def ResultUpholds (P : Int → Entry → Prop) (R : CloseReason → Entry → Prop) (fd : Int) :
    EntryResult → Prop
  | .keep e => P fd e
  | .close why e => R why e
  | .reply e b _ => P fd e ∧ b.Sized

/-- Properties that hold of a new connection, that sending does not touch, and
that every readable event keeps. -/
structure EntryInvariant (h : Host) (P : Int → Entry → Prop)
    (R : CloseReason → Entry → Prop) : Prop where
  init : ∀ fd seq block, block.length = MAXSOCKBUFF →
    P fd ⟨SockConn.Init fd seq block, .empty⟩
  send : ∀ fd e loop o, P fd e → P fd { e with hist := e.hist.send loop o }
  read : ∀ fd e b o, P fd e → b.Sized → o.Fits e.conn.requested →
    ∃ r, e.handleRead h b o = some r ∧ ResultUpholds P R fd r

section Invariant

variable {h : Host} {P : Int → Entry → Prop} {R : CloseReason → Entry → Prop} {w : Reactor}

theorem Reactor.Fresh.upholds (hw : w.Fresh) : Upholds P R w where
  sized := hw.sized
  entries := by simp [hw.umap]
  retired := by simp [hw.retired]

theorem Upholds.conclude (hw : Upholds P R w) {fd : Int} {r : EntryResult}
    (hr : ResultUpholds P R fd r) : Upholds P R (w.conclude fd r) := by
  have hupdate : ∀ e, P fd e → ∀ fd',
      ∀ e' ∈ Function.update w.umapFdSockConn fd (some e) fd', P fd' e' := by
    intro e he fd' e' hmem
    rcases update_eq_some_iff.mp hmem with ⟨rfl, rfl⟩ | ⟨-, hold⟩
    · exact he
    · exact hw.entries fd' e' hold
  cases r with
  | keep e =>
      exact { sized := hw.sized, entries := hupdate e hr, retired := hw.retired }
  | close why e =>
      refine { sized := hw.sized, entries := ?_, retired := ?_ }
      · intro fd' e' hmem
        exact hw.entries fd' e' (erase_eq_some_iff.mp hmem).2
      · intro r hmem
        simp only [Reactor.conclude, List.mem_append, List.mem_singleton] at hmem
        rcases hmem with hold | rfl
        · exact hw.retired r hold
        · exact hr
  | reply e b ack =>
      exact { sized := hr.2, entries := hupdate e hr.1, retired := hw.retired }

theorem Upholds.newConn (hw : Upholds P R w) {fd : Int} {peername : Bool}
    {block : List UInt8}
    (hnew : P fd ⟨SockConn.Init fd (w.connSeq + 1) block, .empty⟩) :
    Upholds P R (w.newConn fd peername block) := by
  unfold Reactor.newConn
  by_cases hneg : fd ≤ 0
  · rw [if_pos hneg]
    exact hw
  · rw [if_neg hneg]
    cases peername with
    | false => exact { sized := hw.sized, entries := hw.entries, retired := hw.retired }
    | true =>
        refine { sized := hw.sized, entries := ?_, retired := hw.retired }
        intro fd' e' hmem
        rcases insertConn_cases _ _ _ hmem with hold | ⟨rfl, rfl, -⟩
        · exact hw.entries fd' e' hold
        · exact hnew

theorem Upholds.sendTurn (hw : Upholds P R w)
    (hsend : ∀ fd e loop o, P fd e → P fd { e with hist := e.hist.send loop o })
    {fd : Int} {loop : SendLoop} {o : SendOutcome} : Upholds P R (w.sendTurn fd loop o) := by
  refine { sized := hw.sized, entries := ?_, retired := hw.retired }
  intro fd' e' hmem
  rcases alter_eq_some_iff.mp hmem with ⟨rfl, e, he, rfl⟩ | ⟨-, hold⟩
  · exact hsend fd' e loop o (hw.entries fd' e he)
  · exact hw.entries fd' e' hold

/-- **The step rule**: every enabled event has a successor, and it upholds the
invariant. -/
theorem Upholds.step (hinv : EntryInvariant h P R) (hw : Upholds P R w) {ev : Event}
    (hev : Enabled w ev) : ∃ w', w.next h ev = some w' ∧ Upholds P R w' := by
  cases ev with
  | newConn fd peername block => exact ⟨_, rfl, hw.newConn (hinv.init fd _ block hev.2)⟩
  | read fd o =>
      simp only [Reactor.next]
      cases he : w.umapFdSockConn fd with
      | none => exact ⟨w, rfl, hw⟩
      | some e =>
          obtain ⟨r, hread, hr⟩ :=
            hinv.read fd e w.buffers o (hw.entries fd e he) hw.sized (hev.2 e he)
          refine ⟨w.conclude fd r, ?_, hw.conclude hr⟩
          simp only [hread, Option.map_some]
  | send o =>
      obtain ⟨⟨fd, loop⟩, hsending, -⟩ := hev
      rw [Option.mem_def] at hsending
      simp only [Reactor.next, hsending]
      exact ⟨_, rfl, hw.sendTurn hinv.send⟩

/-- **The run rule**: an invariant of connections holds in every reachable
state. -/
theorem EntryInvariant.reachable (hinv : EntryInvariant h P R)
    (hw : (reactor h).Reachable w) : Upholds P R w := by
  refine System.invariant_of_step ?_ ?_ hw
  · intro s hs
    exact Reactor.Fresh.upholds hs
  · intro s ev t _ hs hst
    obtain ⟨t', hnext, ht'⟩ := hs.step hinv hst.1
    have hst' := hst.2
    rw [hnext, Option.some.injEq] at hst'
    exact hst' ▸ ht'

end Invariant

/-- On any host every open connection has a whole buffer. -/
theorem holds_invariant (h : Host) :
    EntryInvariant h (fun _ e => ∃ bytes, Holds e.conn bytes) (fun _ _ => True) where
  init := fun fd seq _ hblock => ⟨[], Holds.init fd seq hblock⟩
  send := fun _ _ _ _ he => he
  read := by
    intro fd e b o he hb hfit
    obtain ⟨bytes, hbytes⟩ := he
    obtain ⟨r, hread, hr⟩ := Entry.handleRead_spec h hb hbytes hfit
    refine ⟨r, hread, ?_⟩
    cases hr with
    | lost ho => trivial
    | more c ho _ _ hc => exact ⟨_, hc⟩
    | bad c ho => trivial
    | frame c b' n ho _ _ _ hc _ _ hb' => exact ⟨⟨_, hc⟩, hb'⟩
    | wrapped c b' t ho _ _ hc _ _ hb' => exact ⟨⟨_, hc⟩, hb'⟩

end MyGenSvr.Ports
