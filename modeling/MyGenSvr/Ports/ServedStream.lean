import MyGenSvr.Ports.Acknowledgement
import MyGenSvr.Ports.Isolation
import MyGenSvr.Ports.Ownership
import MyGenSvr.Ports.ReplyStream

/-!
# The server as a function of byte streams

What the server is for: every frame of the stream a client sends is answered, in
order, by an acknowledgement that depends on that frame alone.  `serve` says so
without reactors, threads or system calls, and a pool of reactors is compared with it:
what a connection has been sent, what is being sent and what is owed for the frames
still in its buffer are together the answer to what was received.

## Main results

* `StreamInvariant.reachable` — a property of a history and the bytes still to be
  sent, over every run of a reactor.
* `server_serves` — the pool against `serve`.
* `client_correlates` — what a client finds that cuts the bytes it gets into frames.
-/

namespace MyGenSvr.Ports

open MyGenSvr.Verified.Framing
open MyGenSvr.Verified.Noninterference
open MyGenSvr.Verified.PartialMap
open MyGenSvr.Verified.Transition

/-- The answer to a stream: the acknowledgements of its frames. -/
def serve (h : Host) (stream : List UInt8) : List (List UInt8) :=
  (pkgFramer.frames stream).map (ackOf h)

/-! ## The bytes still to be sent -/

/-- A property of a history and of the bytes still to be sent on its connection that
new connections have and that receiving, answering and sending keep. -/
structure StreamInvariant (Q : History → List UInt8 → Prop) : Prop where
  init : Q .empty []
  receive : ∀ t o, Q t [] → Q (t.receive o) []
  dispatch : ∀ t request ack, Q t [] → Q (t.dispatch request ack) ack
  send : ∀ t loop o, Q t loop.p →
    Q (t.send loop o) (match sendStep loop o with
      | .again loop' => loop'.p
      | .done _ => [])

/-- The property holds of every connection; a closed one has nothing to be sent. -/
structure StreamsUphold (Q : History → List UInt8 → Prop) (w : Reactor) : Prop where
  entries : ∀ fd, ∀ e ∈ w.umapFdSockConn fd, Q e.hist (w.pending fd)
  retired : ∀ r ∈ w.retired, Q r.2.2.hist []

theorem pending_sending {w : Reactor} {fd : Int} {loop : SendLoop}
    (hsending : w.sending = some (fd, loop)) (fd' : Int) :
    w.pending fd' = if fd = fd' then loop.p else [] := by
  rw [Reactor.pending, hsending]

/-- What is to be sent of an acknowledgement when `HandleRead` hands it over. -/
theorem pending_reply (w : Reactor) (fd : Int) (e : Entry) (b : Buffers) (ack : List UInt8)
    (fd' : Int) :
    (w.conclude fd (.reply e b ack)).pending fd' = if fd = fd' then ack else [] := by
  have hsending : (w.conclude fd (.reply e b ack)).sending =
      (sendStart ack).map fun loop => (fd, loop) := rfl
  by_cases hempty : ack.length = 0
  · rw [sendStart, if_pos hempty] at hsending
    rw [pending_of_idle hsending, List.length_eq_zero_iff.mp hempty, ite_self]
  · rw [sendStart, if_neg hempty] at hsending
    exact pending_sending hsending fd'

theorem pending_sendTurn (w : Reactor) (fd : Int) (loop : SendLoop) (o : SendOutcome)
    (fd' : Int) :
    (w.sendTurn fd loop o).pending fd' =
      if fd = fd' then (match sendStep loop o with
        | .again loop' => loop'.p
        | .done _ => []) else [] := by
  have hsending : (w.sendTurn fd loop o).sending =
      match sendStep loop o with
      | .again loop' => some (fd, loop')
      | .done _ => none := rfl
  cases hstep : sendStep loop o with
  | again loop' =>
      rw [hstep] at hsending
      exact pending_sending hsending fd'
  | done ret =>
      rw [hstep] at hsending
      rw [pending_of_idle hsending, ite_self]

section Rule

variable {Q : History → List UInt8 → Prop} {h : Host} {w : Reactor}

theorem StreamsUphold.newConn (hQ : StreamInvariant Q) (hw : StreamsUphold Q w)
    (hidle : w.sending = none) (fd : Int) (peername : Bool) (block : List UInt8) :
    StreamsUphold Q (w.newConn fd peername block) := by
  have hpending : ∀ fd', (w.newConn fd peername block).pending fd' = [] := by
    intro fd'
    exact pending_of_idle ((newConn_sending w fd peername block).trans hidle) fd'
  have hold : ∀ fd', ∀ e ∈ w.umapFdSockConn fd', Q e.hist [] := by
    intro fd' e he
    exact pending_of_idle hidle fd' ▸ hw.entries fd' e he
  constructor
  · intro fd' e hmem
    rw [hpending]
    revert hmem
    unfold Reactor.newConn
    by_cases hneg : fd ≤ 0
    · rw [if_pos hneg]
      exact hold fd' e
    · rw [if_neg hneg]
      cases peername with
      | false => exact hold fd' e
      | true =>
          intro hmem
          rcases insertConn_cases _ _ _ hmem with hbefore | ⟨rfl, rfl, -⟩
          · exact hold fd' e hbefore
          · exact hQ.init
  · unfold Reactor.newConn
    split
    · exact hw.retired
    · cases peername <;> exact hw.retired

theorem StreamsUphold.read (hQ : StreamInvariant Q) (hw : StreamsUphold Q w)
    (hidle : w.sending = none) {fd : Int} {e : Entry} (he : w.umapFdSockConn fd = some e)
    {o : RecvOutcome} {r : EntryResult} (hread : e.handleRead h w.buffers o = some r) :
    StreamsUphold Q (w.conclude fd r) := by
  have hidle' : ∀ fd', w.pending fd' = [] := pending_of_idle hidle
  have hold := hw.entries fd e he
  rw [hidle'] at hold
  rcases Entry.handleRead_hist hread with
    ⟨e', rfl, hhist⟩ | ⟨why, e', rfl, hhist⟩ | ⟨e', b', request, ack, rfl, hhist⟩
  · refine ⟨?_, hw.retired⟩
    intro fd' e'' hmem
    show Q e''.hist (w.pending fd')
    rcases update_eq_some_iff.mp hmem with ⟨rfl, rfl⟩ | ⟨-, hbefore⟩
    · rw [hidle', hhist]
      exact hQ.receive _ o hold
    · exact hw.entries fd' e'' hbefore
  · refine ⟨fun fd' e'' hmem => hw.entries fd' e'' (erase_eq_some_iff.mp hmem).2, ?_⟩
    intro r hmem
    simp only [Reactor.conclude, List.mem_append, List.mem_singleton] at hmem
    rcases hmem with hbefore | rfl
    · exact hw.retired r hbefore
    · exact hhist ▸ hQ.receive _ o hold
  · refine ⟨?_, hw.retired⟩
    intro fd' e'' hmem
    rw [pending_reply]
    rcases update_eq_some_iff.mp hmem with ⟨rfl, rfl⟩ | ⟨hne, hbefore⟩
    · rw [if_pos rfl, hhist]
      exact hQ.dispatch _ request ack (hQ.receive _ o hold)
    · rw [if_neg (Ne.symm hne), ← hidle' fd']
      exact hw.entries fd' e'' hbefore

theorem StreamsUphold.sendTurn (hQ : StreamInvariant Q) (hw : StreamsUphold Q w) {fd : Int}
    {loop : SendLoop} (hsending : w.sending = some (fd, loop)) (o : SendOutcome) :
    StreamsUphold Q (w.sendTurn fd loop o) := by
  refine ⟨?_, hw.retired⟩
  intro fd' e' hmem
  rw [pending_sendTurn]
  rcases alter_eq_some_iff.mp hmem with ⟨rfl, e, he, rfl⟩ | ⟨hne, hbefore⟩
  · have hold := hw.entries fd' e he
    rw [pending_sending hsending, if_pos rfl] at hold
    rw [if_pos rfl]
    exact hQ.send e.hist loop o hold
  · have hold := hw.entries fd' e' hbefore
    rw [pending_sending hsending, if_neg (Ne.symm hne)] at hold
    rw [if_neg (Ne.symm hne)]
    exact hold

/-- **The step rule.** -/
theorem StreamsUphold.step (hQ : StreamInvariant Q) (hw : StreamsUphold Q w) {ev : Event}
    {w' : Reactor} (hst : (reactor h).step w ev w') : StreamsUphold Q w' := by
  obtain ⟨henabled, hnext⟩ := hst
  cases ev with
  | newConn fd peername block =>
      rw [Reactor.next, Option.some.injEq] at hnext
      subst hnext
      exact hw.newConn hQ henabled.1 fd peername block
  | read fd o =>
      simp only [Reactor.next] at hnext
      cases he : w.umapFdSockConn fd with
      | none =>
          rw [he, Option.some.injEq] at hnext
          exact hnext ▸ hw
      | some e =>
          rw [he] at hnext
          obtain ⟨r, hread, rfl⟩ := Option.map_eq_some_iff.mp hnext
          exact hw.read hQ henabled.1 he hread
  | send o =>
      obtain ⟨⟨fd, loop⟩, hsending, -⟩ := henabled
      rw [Option.mem_def] at hsending
      simp only [Reactor.next, hsending, Option.some.injEq] at hnext
      subst hnext
      exact hw.sendTurn hQ hsending o

/-- **The run rule.** -/
theorem StreamInvariant.reachable (hQ : StreamInvariant Q) (hw : (reactor h).Reachable w) :
    StreamsUphold Q w := by
  refine System.invariant_of_step ?_ ?_ hw
  · intro s (hs : s.Fresh)
    exact ⟨by simp [hs.umap], by simp [hs.retired]⟩
  · intro s ev t _ hs hst
    exact hs.step hQ hst

end Rule

/-- Until a reply is given up, what was sent and what is to be sent are the replies. -/
def Unbroken (t : History) (rest : List UInt8) : Prop :=
  t.gaveUp = false → t.wire ++ rest = t.replies.flatten

theorem unbroken_invariant : StreamInvariant Unbroken where
  init := fun _ => rfl
  receive := by
    intro t o ht
    unfold History.receive
    split
    · exact ht
    · exact ht
  dispatch := by
    intro t request ack ht hgave
    have hwhole := ht hgave
    rw [List.append_nil] at hwhole
    show t.wire ++ ack = (t.replies ++ [ack]).flatten
    rw [List.flatten_append, List.flatten_singleton, hwhole]
  send := by
    intro t loop o ht hgave
    simp only [History.send, Bool.or_eq_false_iff, decide_eq_false_iff_not] at hgave
    have hwhole := ht hgave.1
    show t.wire ++ loop.accepted o ++ _ = t.replies.flatten
    rcases sendStep_cases loop o with ⟨loop', hstep, hsplit⟩ | ⟨hstep, hall⟩ | ⟨hstep, -⟩
    · rw [hstep]
      dsimp only
      rw [List.append_assoc, ← hsplit, hwhole]
    · rw [hstep]
      dsimp only
      rw [List.append_nil, hall, hwhole]
    · exact absurd hstep hgave.2

/-- A connection of `fd`: open, with `pending` to be sent on it, or closed. -/
def Reactor.Knows (w : Reactor) (fd : Int) (e : Entry) (pending : List UInt8) : Prop :=
  (w.umapFdSockConn fd = some e ∧ pending = w.pending fd) ∨
    ((∃ why, (fd, why, e) ∈ w.retired) ∧ pending = [])

/-! ## Requests and replies -/

/-- Every request was answered by its own acknowledgement. -/
def Session.Answered (h : Host) (s : Session) : Prop := s.replies = s.requests.map (ackOf h)

/-- All connections of a client were answered so. -/
structure Client.Answered (h : Host) (c : Client) : Prop where
  live : ∀ s ∈ c.live, s.Answered h
  closed : ∀ r ∈ c.closed, r.2.Answered h

/-- A connection closed behind others that were answered. -/
theorem Client.Answered.close {h : Host} {c : Client} (hc : c.Answered h) {s : Session}
    (hs : s.Answered h) (why : CloseReason) :
    Client.Answered h ⟨none, c.closed ++ [(why, s)]⟩ := by
  refine ⟨by simp, ?_⟩
  intro r hr
  rcases List.mem_append.mp hr with hbefore | hlast
  · exact hc.closed r hbefore
  · rw [List.mem_singleton.mp hlast]
    exact hs

/-- **One event of a client**, by the front of its buffered bytes. -/
theorem Client.Answered.react {h : Host} {c : Client} (hc : c.Answered h) (a : ClientEvent) :
    (c.react h a).Answered h := by
  cases a with
  | opened =>
      rw [Client.react]
      split
      · exact hc
      · refine ⟨?_, hc.closed⟩
        intro s hs
        rw [← Option.some.inj hs]
        exact rfl
  | got o =>
      rw [Client.react, Client.read]
      cases hlive : c.live with
      | none => exact hc
      | some s =>
          have hs : s.Answered h := hc.live s hlive
          dsimp only
          split
          · split
            · refine ⟨?_, hc.closed⟩
              intro s' hs'
              rw [← Option.some.inj hs']
              exact hs
            · exact hc.close (s := { s with buffered := s.buffered ++ o.bytes }) hs .badLength
            · rename_i n hn
              refine ⟨?_, hc.closed⟩
              intro s' hs'
              rw [← Option.some.inj hs']
              show s.replies ++ [_] = (s.requests ++ [_]).map (ackOf h)
              rw [List.map_append, hs, List.map_singleton]
          · exact hc.close hs o.lostReason

theorem Client.Answered.run {h : Host} {c : Client} (hc : c.Answered h) (as : List ClientEvent) :
    (as.foldl (Client.react h) c).Answered h := by
  induction as generalizing c with
  | nil => exact hc
  | cons a as ih => exact ih (hc.react a)

/-- What every client of a reactor sees, where the memory behind the request buffer ends
the scan for a string. -/
theorem view_answered {h : Host} (h64 : h.LP64) {w : Reactor} (hw : (reactor h).Reachable w)
    (ht : w.buffers.Terminated) (fd : Int) : (w.view fd).Answered h := by
  obtain ⟨w₀, es, hfresh, hrun⟩ := hw
  have hmem : w.buffers.memAfter = w₀.buffers.memAfter := by
    have hboth : (reactor h).Reachable w ∧ w.buffers.memAfter = w₀.buffers.memAfter := by
      refine hrun.preserves
        (P := fun w => (reactor h).Reachable w ∧ w.buffers.memAfter = w₀.buffers.memAfter) ?_
        ⟨.init hfresh, rfl⟩
      rintro s ev t ⟨hs, hsame⟩ hst
      exact ⟨hs.step hst, (step_memAfter hs hst).trans hsame⟩
    exact hboth.2
  have ht₀ : w₀.buffers.Terminated := by
    unfold Buffers.Terminated
    rw [← hmem]
    exact ht
  have hcontained := (contained_of_terminated h64 fd hfresh ht₀ hrun).1
  have hview := (clientUnwinding h fd).view_run (.init hfresh) hcontained
  have hstart : Client.Answered h ⟨none, []⟩ := ⟨by simp, by simp⟩
  show ((clientUnwinding h fd).view w).Answered h
  rw [hview]
  show (((clientUnwinding h fd).trace es).foldl (Client.react h) (w₀.view fd)).Answered h
  rw [hfresh.view fd]
  exact hstart.run _

/-! ## One request through the pool -/

section Serving

variable {cfg : PoolCfg} {h : Host} {s : Pool} {i : Nat}

/-- A reactor thread that reads a connection and keeps it open does what the reactor
does. -/
theorem loop_reads (hs : (pool cfg h).Reachable s) (hi : i < cfg.iPoolSize) {fd : Int}
    (hpc : (s.reactors i).pc = .reading fd) {o : RecvOutcome} {w' : Reactor}
    (hst : (reactor h).step (s.reactors i).core (.read fd o) w')
    (hkey : ((s.reactors i).core.umapFdSockConn fd).isSome)
    (hopen : (w'.umapFdSockConn fd).isSome) :
    ∃ s', (pool cfg h).Reachable s' ∧ s'.reactors i = (s.reactors i).resume w' := by
  obtain ⟨⟨-, hfit⟩, hnext⟩ := hst
  obtain ⟨e, he⟩ := Option.isSome_iff_exists.mp hkey
  simp only [Reactor.next, he, Option.map_eq_some_iff] at hnext
  obtain ⟨r, hread, rfl⟩ := hnext
  have hanswers : Answers cfg s i (.recv o) := by
    intro fd' e' hpc' he'
    rw [hpc, Pc.reading.injEq] at hpc'
    exact hfit e' (hpc' ▸ he')
  have hloop : (s.reactors i).next cfg h i (.recv o) =
      some ((s.reactors i).resume ((s.reactors i).core.conclude fd r), .none) := by
    simp only [LiteReactorBase.next, hpc, LiteReactorBase.onRecv, he, hread]
    cases r with
    | close why e' =>
        have hgone := (conclude_close_isSome (s.reactors i).core fd why e' fd).mp hopen
        exact absurd rfl hgone.1
    | keep e' => rfl
    | reply e' b ack => rfl
  exact loop_reachable hs hi hanswers rfl hloop

/-- A reactor thread that sends does what the reactor does. -/
theorem loop_sends (hs : (pool cfg h).Reachable s) (hi : i < cfg.iPoolSize)
    (hpc : (s.reactors i).pc = .sending) {o : SendOutcome} {w' : Reactor}
    (hst : (reactor h).step (s.reactors i).core (.send o) w') :
    ∃ s', (pool cfg h).Reachable s' ∧ s'.reactors i = (s.reactors i).resume w' := by
  obtain ⟨hfit, hnext⟩ := hst
  have hloop : (s.reactors i).next cfg h i (.send o) =
      some ((s.reactors i).resume w', .none) := by
    simp only [LiteReactorBase.next, hpc, if_true, hnext, Option.map_some]
  have hanswers : Answers cfg s i (.send o) := hfit
  exact loop_reachable hs hi hanswers rfl hloop

end Serving

/-- Through the whole pool: a request on descriptor 5 is read in one piece, and the
acknowledgement is sent in one. -/
theorem boot_answers {h : Host} (h64 : h.LP64) {req : List UInt8}
    (hreq : pkgFront req = .frame req.length) :
    ∃ s e ack, (pool (.single none) h).Reachable s ∧
      (s.reactors 0).core.Knows 5 e [] ∧ (s.reactors 0).core.buffers.Terminated ∧
      e.hist.received = req ∧ e.hist.wire = ack ∧ 24 ≤ ack.length ∧
      e.hist.gaveUp = false := by
  obtain ⟨hlong, -, hmax, -⟩ := pkgFront_eq_frame.mp hreq
  rw [MAXFRAME_eq] at hmax
  have hroom : ([] : List UInt8).length + req.length ≤ MAXSOCKBUFF := by
    rw [List.length_nil, MAXSOCKBUFF]
    omega
  have hone : 0 < (PoolCfg.single none).iPoolSize := Nat.one_pos
  obtain ⟨s₁, settled, hs₁, -, hepoll, hboot⟩ := boot_takes_in h emptyBlock_length
  have hpc₁ : (s₁.reactors 0).pc = .wait := congrArg LiteReactorBase.pc hboot
  have hcore₁ : (s₁.reactors 0).core = Reactor.boot.newConn 5 true emptyBlock :=
    congrArg LiteReactorBase.core hboot
  obtain ⟨w₁, e₁, hstep₁, he₁, hhist₁, hbooks₁, hidle₁, -, hbuf₁, hgood₁⟩ :=
    @Good.read_newConn h Reactor.boot rfl 5 (by decide) rfl _ emptyBlock_length
  have hw₁ : w₁ = (s₁.reactors 0).core := by
    rw [hcore₁]
    exact (Option.some.inj hstep₁.2).symm
  subst hw₁
  have hwait : Answers (.single none) s₁ 0 (.wait [5]) := by
    refine ⟨List.nodup_singleton 5, by decide, ?_⟩
    intro fd hfd
    exact Or.inl (List.mem_singleton.mp hfd ▸ hepoll)
  have hturn₁ : (s₁.reactors 0).next (.single none) h 0 (.wait [5]) =
      some ({ s₁.reactors 0 with
        events := [5]
        edge := (s₁.reactors 0).edge && decide ((PoolCfg.single none).connNotifyRecvFd 0 ∉ [5])
        pc := .dispatch }, .none) := by
    simp only [LiteReactorBase.next, hpc₁, if_true]
  obtain ⟨s₂, hs₂, hl₂⟩ := loop_reachable hs₁ hone hwait rfl hturn₁
  obtain ⟨s₃, hs₃, hl₃⟩ := @loop_reachable _ _ _ hs₂ 0 hone .dispatch trivial _ _ _ hl₂ rfl
  have hcore₃ : (s₃.reactors 0).core = (s₁.reactors 0).core := by
    rw [hl₃]
    rfl
  have hpc₃ : (s₃.reactors 0).pc = .reading 5 := by
    rw [hl₃]
    rfl
  -- the request
  obtain ⟨ack, hack⟩ : ∃ ack, ack = (s₁.reactors 0).core.buffers.ackFrame h
      ((([] : List UInt8) ++ req).take req.length) := ⟨_, rfl⟩
  have hlen : 24 ≤ ack.length := by
    rw [hack, Buffers.ackFrame, replyFrame_length]
    exact Nat.le_add_right _ _
  obtain ⟨w₂, e₂, hstep₂, -, he₂, hhist₂, -, hsend₂, -, hmem₂, -⟩ :=
    (hgood₁ Reactor.boot_fresh.upholds).read_frame hidle₁ he₁ hbooks₁ req
      (h64.noWrap _) (by omega) hroom hreq hack
  rw [← hcore₃] at hstep₂
  obtain ⟨s₄, hs₄, hl₄⟩ := loop_reads hs₃ hone hpc₃ hstep₂ (by rw [hcore₃, he₁]; rfl)
    (by rw [he₂]; rfl)
  have hcore₄ : (s₄.reactors 0).core = w₂ := by
    rw [hl₄]
    rfl
  have hpc₄ : (s₄.reactors 0).pc = .sending := by
    rw [hl₄, LiteReactorBase.resume, hsend₂]
    rfl
  -- the acknowledgement, in one piece
  obtain ⟨w₃, hstep₃, he₃, hidle₃, hbuf₃, -, -⟩ :=
    step_send hsend₂ he₂ (show (SendOutcome.sent _).Fits _ from Nat.le_refl _)
  rw [← hcore₄] at hstep₃
  obtain ⟨s₅, hs₅, hl₅⟩ := loop_sends hs₄ hone hpc₄ hstep₃
  have hcore₅ : (s₅.reactors 0).core = w₃ := by
    rw [hl₅]
    rfl
  have hdone : w₃.sending = none := hidle₃.trans (by rw [sendStep, if_pos rfl])
  refine ⟨s₅, _, ack, hs₅, Or.inl ⟨by rw [hcore₅]; exact he₃, ?_⟩, ?_, ?_, ?_, hlen, ?_⟩
  · rw [hcore₅, pending_of_idle hdone]
  · rw [hcore₅]
    unfold Buffers.Terminated
    rw [hbuf₃, hmem₂, hbuf₁]
    exact ⟨0, rfl, by decide⟩
  · rw [hhist₂, hhist₁]
    exact List.append_nil req
  · rw [hhist₂, hhist₁]
    exact List.take_length
  · have hsent : sendStep ⟨ack, 0⟩ (.sent ack.length) = .done 0 := if_pos rfl
    rw [hhist₂, hhist₁]
    simp only [History.send, hsent]
    rfl

/-! ## The pool against `serve` -/

/-- A connection with `pending` to be sent is served as it should be: its requests are
the frames of what was received up to those still in the buffer; each has the reply that
belongs to it; and, until a reply is given up, what was sent, what is to be sent and what is
owed are the answer to all that was received. -/
structure Served (h : Host) (e : Entry) (pending : List UInt8) : Prop where
  requests : e.hist.requests ++ pkgFramer.frames e.conn.buffered =
    pkgFramer.frames e.hist.received
  replies : e.hist.replies = e.hist.requests.map (ackOf h)
  stream : e.hist.gaveUp = false →
    e.hist.wire ++ pending ++ (serve h e.conn.buffered).flatten =
      (serve h e.hist.received).flatten

/-- The books of a connection are those of the greedy cut. -/
theorem Books.cut {e : Entry} {live : Bool} {bytes : List UInt8} (hbooks : Books e live bytes) :
    e.hist.requests ++ pkgFramer.frames e.conn.buffered =
      pkgFramer.frames e.hist.received := by
  have hcut := (deliver_run_inv pkgFramer e.hist.chunks).cut
  rw [hbooks.refines] at hcut
  rw [hbooks.holds.buffered_eq]
  exact hcut.symm

/-- Requests, replies and bytes put together. -/
theorem Served.of_parts {h : Host} {e : Entry} {live : Bool} {bytes pending : List UInt8}
    (hbooks : Books e live bytes) (hanswered : e.session.Answered h)
    (hunbroken : Unbroken e.hist pending) : Served h e pending where
  requests := hbooks.cut
  replies := hanswered
  stream := by
    intro hgave
    have hreplies : e.hist.replies = e.hist.requests.map (ackOf h) := hanswered
    rw [hunbroken hgave, hreplies, serve, serve, ← hbooks.cut, List.map_append,
      List.flatten_append]

theorem reactor_serves {h : Host} (h64 : h.LP64) {w : Reactor} (hw : (reactor h).Reachable w)
    (ht : w.buffers.Terminated) :
    (∀ fd, ∀ e ∈ w.umapFdSockConn fd, Served h e (w.pending fd)) ∧
      ∀ r ∈ w.retired, Served h r.2.2 [] := by
  have hgood := reactor_good h64 hw
  have hstreams := unbroken_invariant.reachable hw
  constructor
  · intro fd e he
    obtain ⟨bytes, hbooks, -⟩ := (hgood.entries fd e he).books
    have hlive : (w.view fd).live = some e.session := by
      rw [Reactor.view, he, Option.map_some]
    exact .of_parts hbooks ((view_answered h64 hw ht fd).live _ hlive) (hstreams.entries fd e he)
  · intro r hr
    obtain ⟨bytes, hbooks, -⟩ := hgood.retired r hr
    have hclosed : (r.2.1, r.2.2.session) ∈ (w.view r.1).closed := by
      refine List.mem_filterMap.mpr ⟨r, hr, ?_⟩
      rw [closedOn, if_pos rfl]
    exact .of_parts hbooks ((view_answered h64 hw ht r.1).closed _ hclosed)
      (hstreams.retired r hr)

theorem pool_serves {cfg : PoolCfg} {h : Host} (h64 : h.LP64) {s : Pool}
    (hs : (pool cfg h).Reachable s) {i : Nat} (ht : (s.reactors i).core.buffers.Terminated)
    {fd : Int} {e : Entry} {pending : List UInt8}
    (hknows : (s.reactors i).core.Knows fd e pending) : Served h e pending := by
  obtain ⟨hlive, hretired⟩ := reactor_serves h64 (core_reachable hs i) ht
  rcases hknows with ⟨he, rfl⟩ | ⟨⟨why, hmem⟩, rfl⟩
  · exact hlive fd e he
  · exact hretired (fd, why, e) hmem

/-- **The pool computes `serve`** on every connection, whatever its size, however its
threads, the accepting thread and the clients interleave, and however the kernel cuts
what it receives and accepts. -/
theorem server_serves (cfg : PoolCfg) (h : Host) (h64 : h.LP64) (s : Pool)
    (hs : (pool cfg h).Reachable s) (i : Nat)
    (ht : (s.reactors i).core.buffers.Terminated) (fd : Int) (e : Entry)
    (pending : List UInt8) (hknows : (s.reactors i).core.Knows fd e pending) :
    e.hist.requests ++ pkgFramer.frames e.conn.buffered =
        pkgFramer.frames e.hist.received ∧
      e.hist.replies = e.hist.requests.map (ackOf h) ∧
      (e.hist.gaveUp = false →
        e.hist.wire ++ pending ++ (serve h e.conn.buffered).flatten =
          (serve h e.hist.received).flatten) := by
  have hserved := pool_serves h64 hs ht hknows
  exact ⟨hserved.requests, hserved.replies, hserved.stream⟩

/-- One request on descriptor 5: the bytes sent are the answer to it. -/
theorem server_serves_one_request :
    ∃ s e, ((s : Pool).reactors 0).core.Knows 5 e [] ∧
      e.hist.received = List.replicate 24 0 ∧ e.hist.wire ≠ [] ∧
      e.hist.wire ++ [] ++ (serve .x86_64 e.conn.buffered).flatten =
        (serve .x86_64 e.hist.received).flatten := by
  obtain ⟨s, e, ack, hs, hknows, ht, hreceived, hwire, hlen, hgave⟩ :=
    boot_answers Host.x86_64_LP64 pkgFront_zero
  refine ⟨s, e, hknows, hreceived, ?_, (server_serves (.single none) .x86_64 Host.x86_64_LP64 s hs
    0 ht 5 e [] hknows).2.2 hgave⟩
  rw [hwire]
  rintro rfl
  exact absurd hlen (by decide)

/-! ## What a client finds -/

/-- An acknowledgement is a frame of the server's own framing. -/
theorem ackOf_front (h : Host) (frame : List UInt8) :
    pkgFront (ackOf h frame) = .frame (ackOf h frame).length := by
  have hshort := replyFrame_length_le h (.ofBytes frame)
    (accepts3005 (frame.drop PkgHead.sizeof))
  have hlong := replyFrame_length h (.ofBytes frame) (accepts3005 (frame.drop PkgHead.sizeof))
  have hfront := replyFrame_front h (.ofBytes frame) (accepts3005 (frame.drop PkgHead.sizeof))
  refine pkgFront_eq_frame.mpr ⟨?_, hfront.symm, ?_, le_refl _⟩
  · rw [ackOf, hlong]
    exact Nat.le_add_right _ _
  · rw [MAXFRAME_eq]
    exact hshort.trans (by decide)

/-- An acknowledgement repeats the header of its request, but for the length. -/
theorem ackOf_head (h : Host) (frame : List UInt8) :
    ∃ uiPkgBodyLen, PkgHead.ofBytes (ackOf h frame) =
      { PkgHead.ofBytes frame with uiPkgBodyLen := uiPkgBodyLen } := by
  have hhead := replyFrame_head h (.ofBytes frame)
    (accepts3005 (frame.drop PkgHead.sizeof)) []
  rw [List.append_nil] at hhead
  exact ⟨_, hhead⟩

/-- What was sent whole, cut by the client, is the front of the answer. -/
theorem Served.cut {h : Host} {e : Entry} {pending : List UInt8} (hserved : Served h e pending)
    (hgave : e.hist.gaveUp = false) :
    pkgFramer.frames e.hist.wire <+: e.hist.replies ∧
      (pending = [] → pkgFramer.frames e.hist.wire = e.hist.replies) := by
  have hfronts : ∀ q ∈ e.hist.replies, pkgFramer.front q = .frame q.length := by
    intro q hq
    rw [hserved.replies] at hq
    obtain ⟨request, -, rfl⟩ := List.mem_map.mp hq
    exact ackOf_front h request
  have hsent : e.hist.wire ++ pending = e.hist.replies.flatten := by
    have hstream := hserved.stream hgave
    rw [serve, serve, ← hserved.requests, List.map_append, List.flatten_append,
      ← hserved.replies] at hstream
    exact List.append_cancel_right hstream
  constructor
  · exact frames_of_part pkgFramer hfronts (hsent ▸ List.prefix_append _ _)
  · rintro rfl
    have hall := frames_flatten pkgFramer hfronts []
    rw [List.append_nil, frames_nil, List.append_nil] at hall
    rw [List.append_nil] at hsent
    rw [hsent, hall]

/-- **A client can tell the replies apart.**  Cut by the framing of the server, the bytes
a client gets are the first acknowledgements, all of those handed to `SendMsg` when it
has returned; and on any host the client reads in the header of the `k`-th what it had
put into the header of its `k`-th request, next to the length of the body that follows. -/
theorem client_correlates (cfg : PoolCfg) (h h' : Host) (h64 : h.LP64) (s : Pool)
    (hs : (pool cfg h).Reachable s) (i : Nat)
    (ht : (s.reactors i).core.buffers.Terminated) (fd : Int) (e : Entry)
    (pending : List UInt8) (hknows : (s.reactors i).core.Knows fd e pending)
    (hgave : e.hist.gaveUp = false) :
    pkgFramer.frames e.hist.wire <+: serve h e.hist.received ∧
      (pending = [] → pkgFramer.frames e.hist.wire = e.hist.replies) ∧
      ∀ (k : Nat) (ack : List UInt8), (pkgFramer.frames e.hist.wire)[k]? = some ack →
        ∃ request p uiPkgBodyLen, (pkgFramer.frames e.hist.received)[k]? = some request ∧
          PkgHead.unpacket h' request true = some p ∧
          PkgHead.unpacket h' ack true = some { p with uiPkgBodyLen := uiPkgBodyLen } ∧
          ack.length = PkgHead.sizeof + uiPkgBodyLen.toNat := by
  have hserved := pool_serves h64 hs ht hknows
  obtain ⟨hpart, hall⟩ := hserved.cut hgave
  have hfront : pkgFramer.frames e.hist.wire <+: serve h e.hist.received := by
    refine hpart.trans ?_
    rw [serve, ← hserved.requests, List.map_append, ← hserved.replies]
    exact List.prefix_append _ _
  refine ⟨hfront, hall, ?_⟩
  intro k ack hk
  have hanswer : (serve h e.hist.received)[k]? = some ack := by
    obtain ⟨later, hlater⟩ := hfront
    rw [← hlater, List.getElem?_append_left (List.getElem?_eq_some_iff.mp hk).1, hk]
  rw [serve, List.getElem?_map] at hanswer
  obtain ⟨request, hrequest, rfl⟩ := Option.map_eq_some_iff.mp hanswer
  have hframe : 24 ≤ request.length := by
    obtain ⟨later, hlater⟩ := front_of_mem_frames pkgFramer (List.mem_of_getElem? hrequest)
    rw [(pkgFront_eq_frame.mp hlater).2.1]
    exact frameLen_ge _
  obtain ⟨uiPkgBodyLen, hhead⟩ := ackOf_head h request
  have hack := pkgFront_eq_frame.mp (ackOf_front h request)
  refine ⟨request, .ofBytes request, uiPkgBodyLen, hrequest, unpacket_net h' hframe, ?_, ?_⟩
  · rw [unpacket_net h' hack.1, hhead]
  · have hlen := congrArg PkgHead.uiPkgBodyLen hhead
    have htotal : (ackOf h request).length = frameLen (ackOf h request) := hack.2.1
    rw [htotal, frameLen, Nat.add_comm]
    exact congrArg (fun v : UInt32 => PkgHead.sizeof + v.toNat) hlen

/-- The client finds one acknowledgement. -/
theorem client_correlates_one_request :
    ∃ s e, ((s : Pool).reactors 0).core.Knows 5 e [] ∧
      e.hist.received = List.replicate 24 0 ∧
      pkgFramer.frames e.hist.wire = e.hist.replies := by
  obtain ⟨s, e, ack, hs, hknows, ht, hreceived, -, -, hgave⟩ :=
    boot_answers Host.x86_64_LP64 pkgFront_zero
  exact ⟨s, e, hknows, hreceived, (client_correlates (.single none) .x86_64 .x86_64
    Host.x86_64_LP64 s hs 0 ht 5 e [] hknows hgave).2.1 rfl⟩

end MyGenSvr.Ports
