import MyGenSvr.Ports.ReactorRun

/-!
# Edge-triggered reading

A reactor with the receive queues the kernel keeps for its clients.  Client sockets
are registered with `EPOLLET`: an event comes when bytes arrive, not as long as some
are there.  `HandleRead` calls `recv` once for an event, with the room left in the
receive buffer, so that what does not fit there stays in the queue, and nothing
comes to tell of it.

## Main results

* `net_refines` — the reactor inside is one of `Ports.Reactor`.
* `edge_drained_iff` — when a read empties the queue, and the runs in which no byte is
  left without an event.
-/

namespace MyGenSvr.Ports

open MyGenSvr.Verified.Buffer
open MyGenSvr.Verified.Framing
open MyGenSvr.Verified.Transition

/-- What the kernel holds for a descriptor: the bytes received, whether the peer has
shut down, whether an event is due, and whether `epoll_wait` has returned one that
is not handled yet. -/
structure Sock where
  queue : List UInt8
  hungUp : Bool
  edge : Bool
  ready : Bool
  deriving DecidableEq, Repr

/-- A descriptor that is not open. -/
def Sock.closed : Sock := ⟨[], false, false, false⟩

/-- What `recv` returns when asked for `requested` bytes: as many as there are, up to
that. -/
def Sock.recv (s : Sock) (requested : Nat) : RecvOutcome :=
  if requested = 0 then .eof
  else if s.queue = [] then
    if s.hungUp then .eof else .error .EAGAIN
  else .data (s.queue.take requested)

/-- A reactor and the sockets of its clients. -/
structure Net where
  core : Reactor
  sock : Int → Sock

/-- What happens to a reactor and its sockets. -/
inductive NetEvent where
  /-- Bytes from the client on `fd`. -/
  | arrive (fd : Int) (bytes : List UInt8)
  /-- The client on `fd` shuts down. -/
  | hangUp (fd : Int)
  /-- `epoll_wait` returns the event of `fd`. -/
  | fetch (fd : Int)
  /-- `HandleNewConn` pops `fd`. -/
  | newConn (fd : Int) (peername : Bool) (block : List UInt8)
  /-- `HandleRead(fd)` for an event that was returned. -/
  | read (fd : Int)
  /-- A turn of the loop of `SendMsg`. -/
  | send (o : SendOutcome)
  deriving DecidableEq, Repr

/-- The descriptor is registered and in the map. -/
def Net.registered (n : Net) (fd : Int) : Bool := (n.core.umapFdSockConn fd).isSome

/-- What can happen next.  `accept` returns no descriptor that is open. -/
def NetEnabled (n : Net) : NetEvent → Prop
  | .arrive _ bytes => bytes ≠ []
  | .hangUp _ => True
  | .fetch fd => n.core.sending = none ∧ (n.sock fd).edge = true
  | .newConn fd peername block =>
      n.registered fd = false ∧ Enabled n.core (.newConn fd peername block)
  | .read fd => n.core.sending = none ∧ (n.sock fd).ready = true
  | .send o => Enabled n.core (.send o)

/-- The socket of one descriptor replaced. -/
def Net.touch (n : Net) (fd : Int) (s : Sock) : Net :=
  { n with sock := Function.update n.sock fd s }

/-- The state after an event; `none` is a fault. -/
def Net.next (h : Host) (n : Net) : NetEvent → Option Net
  | .arrive fd bytes =>
      let s := n.sock fd
      some (n.touch fd
        { s with queue := s.queue ++ bytes, edge := s.edge || n.registered fd })
  | .hangUp fd =>
      let s := n.sock fd
      some (n.touch fd { s with hungUp := true, edge := s.edge || n.registered fd })
  | .fetch fd => some (n.touch fd { n.sock fd with edge := false, ready := true })
  | .newConn fd peername block =>
      -- registering a socket reports what it holds already
      let s := n.sock fd
      let s' := if peername then { s with edge := !s.queue.isEmpty || s.hungUp } else .closed
      (n.core.next h (.newConn fd peername block)).map fun core =>
        if fd ≤ 0 then ⟨core, n.sock⟩ else ⟨core, Function.update n.sock fd s'⟩
  | .read fd =>
      match n.core.umapFdSockConn fd with
      | none => some (n.touch fd .closed)
      | some e =>
          let s := n.sock fd
          (n.core.next h (.read fd (s.recv e.conn.requested))).map fun core =>
            ⟨core, Function.update n.sock fd
              (if (core.umapFdSockConn fd).isSome then
                { s with queue := s.queue.drop e.conn.requested, ready := false }
              else .closed)⟩
  | .send o => (n.core.next h (.send o)).map fun core => ⟨core, n.sock⟩

/-- The runs of a reactor with its sockets. -/
def net (h : Host) : System Net NetEvent where
  init n := n.core.Fresh ∧ n.sock = fun _ => .closed
  step n ev n' := NetEnabled n ev ∧ n.next h ev = some n'

/-- Bytes in the queue of a client come with an event, due or at hand. -/
def Net.Announced (n : Net) : Prop :=
  ∀ fd, n.registered fd = true → (n.sock fd).queue ≠ [] →
    (n.sock fd).edge = true ∨ (n.sock fd).ready = true

/-- The receive buffer has room for all that is queued. -/
def Net.RoomFor (n : Net) (fd : Int) (e : Entry) : Prop :=
  e.conn.buffered.length + (n.sock fd).queue.length ≤ MAXSOCKBUFF

/-- A read that leaves its connection open has room for all that is queued. -/
def Drains (h : Host) (n : Net) : NetEvent → Prop
  | .read fd => ∀ e ∈ n.core.umapFdSockConn fd,
      e.Stays h ((n.sock fd).recv e.conn.requested) → n.RoomFor fd e
  | _ => True

/-! ## The reactor inside -/

/-- The kernel returns no more than it was asked for. -/
theorem Sock.recv_fits {s : Sock} {requested : Nat} {o : RecvOutcome}
    (ho : s.recv requested = o) : o.Fits requested := by
  rw [← ho, Sock.recv]
  split
  · trivial
  · next hpos =>
      split
      · split <;> trivial
      · next hne =>
          have hqueue : 0 < s.queue.length := List.length_pos_iff.mpr hne
          refine ⟨?_, ?_⟩
          · rw [List.length_take]
            omega
          · rw [List.length_take]
            exact Nat.min_le_left _ _

section Refinement

variable {h : Host} {n n' : Net}

/-- **Every step is one of the reactor inside, or does not touch it.** -/
theorem net_step {ev : NetEvent} (hst : (net h).step n ev n') :
    n'.core = n.core ∨ ∃ ev', (reactor h).step n.core ev' n'.core := by
  obtain ⟨henabled, hnext⟩ := hst
  cases ev with
  | arrive fd bytes =>
      cases hnext
      exact Or.inl rfl
  | hangUp fd =>
      cases hnext
      exact Or.inl rfl
  | fetch fd =>
      cases hnext
      exact Or.inl rfl
  | newConn fd peername block =>
      refine Or.inr ⟨.newConn fd peername block, henabled.2, ?_⟩
      simp only [Net.next] at hnext
      obtain ⟨core, hcore, rfl⟩ := Option.map_eq_some_iff.mp hnext
      rw [hcore]
      split <;> rfl
  | read fd =>
      simp only [Net.next] at hnext
      cases hkey : n.core.umapFdSockConn fd with
      | none =>
          rw [hkey] at hnext
          cases hnext
          exact Or.inl rfl
      | some e =>
          rw [hkey] at hnext
          obtain ⟨core, hcore, rfl⟩ := Option.map_eq_some_iff.mp hnext
          obtain ⟨o, ho⟩ : ∃ o, (n.sock fd).recv e.conn.requested = o := ⟨_, rfl⟩
          rw [ho] at hcore
          refine Or.inr ⟨.read fd o, ⟨henabled.1, ?_⟩, hcore⟩
          intro e' he'
          rw [hkey, Option.mem_some_iff] at he'
          exact he' ▸ Sock.recv_fits ho
  | send o =>
      simp only [Net.next] at hnext
      obtain ⟨core, hcore, rfl⟩ := Option.map_eq_some_iff.mp hnext
      exact Or.inr ⟨.send o, henabled, hcore⟩

/-- The reactor inside is in a state it reaches by itself. -/
theorem net_refines (hn : (net h).Reachable n) : (reactor h).Reachable n.core := by
  refine System.invariant_of_step (P := fun n : Net => (reactor h).Reachable n.core) ?_ ?_ hn
  · intro n hinit
    exact .init hinit.1
  · intro n ev n' _ hcore hst
    rcases net_step hst with hsame | ⟨ev', hstep⟩
    · rw [hsame]
      exact hcore
    · exact hcore.step hstep

theorem net_holds (hn : (net h).Reachable n) {fd : Int} {e : Entry}
    (hkey : n.core.umapFdSockConn fd = some e) : ∃ bytes, Holds e.conn bytes :=
  ((holds_invariant h).reachable (net_refines hn)).entries fd e hkey

end Refinement

/-! ## Reading -/

section Reading

variable {h : Host} {n n' : Net} {fd : Int}

/-- **One event, one `recv`**: a connection that stays is left with what did not fit into
its buffer, any other is closed, and all others are not touched. -/
theorem read_step (hn : (net h).Reachable n) (hst : (net h).step n (.read fd) n') :
    (∀ fd', fd' ≠ fd → n'.registered fd' = n.registered fd' ∧ n'.sock fd' = n.sock fd') ∧
    ∀ e, n.core.umapFdSockConn fd = some e →
      (n'.registered fd = true ↔ e.Stays h ((n.sock fd).recv e.conn.requested)) ∧
      (n'.registered fd = true →
        (n'.sock fd).queue = (n.sock fd).queue.drop e.conn.requested) := by
  obtain ⟨henabled, hnext⟩ := hst
  simp only [Net.next] at hnext
  cases hkey : n.core.umapFdSockConn fd with
  | none =>
      rw [hkey] at hnext
      cases hnext
      refine ⟨fun fd' hne => ⟨rfl, Function.update_of_ne hne _ _⟩, ?_⟩
      intro e he
      cases he
  | some e =>
      rw [hkey] at hnext
      obtain ⟨core, hcore, rfl⟩ := Option.map_eq_some_iff.mp hnext
      obtain ⟨bytes, hbytes⟩ := net_holds hn hkey
      have hsized := ((holds_invariant h).reachable (net_refines hn)).sized
      obtain ⟨o, ho⟩ : ∃ o, (n.sock fd).recv e.conn.requested = o := ⟨_, rfl⟩
      rw [ho] at hcore
      obtain ⟨r, hread, hr⟩ := Entry.handleRead_spec h hsized hbytes (Sock.recv_fits ho)
      simp only [Reactor.next, hkey, hread, Option.map_some, Option.some.injEq] at hcore
      have hother : ∀ fd', fd' ≠ fd →
          core.umapFdSockConn fd' = n.core.umapFdSockConn fd' := by
        intro fd' hne
        rw [← hcore]
        cases r <;> exact Function.update_of_ne hne _ _
      refine ⟨fun fd' hne => ⟨?_, Function.update_of_ne hne _ _⟩, ?_⟩
      · simp only [Net.registered, hother fd' hne]
      · intro e' he'
        obtain rfl : e = e' := Option.some.inj he'
        rw [ho]
        constructor
        · simp only [Net.registered, ← hcore]
          rcases hr.stays_iff hbytes with ⟨hstays, e', -, hopen⟩ | ⟨hcloses, why, e', rfl⟩
          · refine iff_of_true ?_ hstays
            rcases hopen with rfl | ⟨b', ack, rfl⟩
            · simp [Reactor.conclude]
            · simp [Reactor.conclude]
          · refine iff_of_false ?_ hcloses
            simp [Reactor.conclude]
        · intro hopen
          have hopen' : (core.umapFdSockConn fd).isSome = true := hopen
          simp only [Function.update_self, hopen', if_true]

/-- What is asked for covers the queue exactly where the buffer has room for it. -/
theorem drop_requested_eq_nil_iff (hn : (net h).Reachable n) {e : Entry}
    (hkey : n.core.umapFdSockConn fd = some e) :
    (n.sock fd).queue.drop e.conn.requested = [] ↔ n.RoomFor fd e := by
  obtain ⟨bytes, hbytes⟩ := net_holds hn hkey
  have hle := hbytes.le
  rw [List.drop_eq_nil_iff, Net.RoomFor, hbytes.requested_eq, hbytes.buffered_eq]
  omega

/-- A step of the reactor on one descriptor leaves the others. -/
theorem newConn_registered (w : Reactor) (fd : Int) (peername : Bool) (block : List UInt8)
    {fd' : Int} (hne : fd' ≠ fd) :
    ((w.newConn fd peername block).umapFdSockConn fd').isSome =
      (w.umapFdSockConn fd').isSome := by
  by_cases hfd : fd ≤ 0
  · rw [Reactor.newConn, if_pos hfd]
  · cases peername with
    | false => rw [newConn_nameless]
    | true =>
        have hiff := newConn_isSome w (Int.not_le.mp hfd) block fd'
        simp only [hne, false_or] at hiff
        exact Bool.eq_iff_iff.mpr hiff

theorem Net.Announced.touch {s : Sock} (hn : n.Announced)
    (hs : n.registered fd = true → s.queue ≠ [] → s.edge = true ∨ s.ready = true) :
    (n.touch fd s).Announced := by
  intro fd' hreg hqueue
  by_cases hfd : fd' = fd
  · subst hfd
    simp only [Net.touch, Function.update_self] at hqueue ⊢
    exact hs hreg hqueue
  · simp only [Net.touch, Function.update_of_ne hfd] at hqueue ⊢
    exact hn fd' hreg hqueue

/-- A socket that holds bytes is registered with its event due. -/
theorem Net.Announced.newConn (hn : n.Announced) (fd : Int) (peername : Bool)
    (block : List UInt8) (hnext : n.next h (.newConn fd peername block) = some n') :
    n'.Announced := by
  simp only [Net.next, Reactor.next, Option.map_some, Option.some.injEq] at hnext
  subst hnext
  by_cases hfd : fd ≤ 0
  · rw [if_pos hfd, Reactor.newConn, if_pos hfd]
    exact hn
  · rw [if_neg hfd]
    intro fd' hreg hqueue
    by_cases hne : fd' = fd
    · subst hne
      simp only [Function.update_self] at hqueue ⊢
      cases peername with
      | false => exact absurd rfl hqueue
      | true =>
          apply Or.inl
          simp only [if_true] at hqueue ⊢
          simp [hqueue]
    · simp only [Function.update_of_ne hne] at hqueue ⊢
      have hsame := newConn_registered n.core fd peername block hne
      exact hn fd' (hsame.symm.trans hreg) hqueue

/-- A read with room for all that is queued leaves nothing behind. -/
theorem Net.Announced.read (hreach : (net h).Reachable n) (hn : n.Announced)
    (hdrains : Drains h n (.read fd)) (hst : (net h).step n (.read fd) n') :
    n'.Announced := by
  obtain ⟨hother, hself⟩ := read_step hreach hst
  intro fd' hreg hqueue
  by_cases hfd : fd' = fd
  · subst hfd
    exfalso
    cases hkey : n.core.umapFdSockConn fd' with
    | none =>
        have hnext := hst.2
        simp only [Net.next, hkey, Option.some.injEq] at hnext
        rw [← hnext, Net.touch] at hqueue
        simp only [Function.update_self] at hqueue
        exact hqueue rfl
    | some e =>
        obtain ⟨hopen, hrest⟩ := hself e hkey
        rw [hrest hreg] at hqueue
        exact hqueue ((drop_requested_eq_nil_iff hreach hkey).mpr
          (hdrains e hkey (hopen.mp hreg)))
  · obtain ⟨hreg', hsock⟩ := hother fd' hfd
    rw [hsock] at hqueue ⊢
    exact hn fd' (hreg'.symm.trans hreg) hqueue

/-- **The step rule**: a step that drains leaves no byte without an event. -/
theorem Net.Announced.step (hreach : (net h).Reachable n) (hn : n.Announced) {ev : NetEvent}
    (hdrains : Drains h n ev) (hst : (net h).step n ev n') : n'.Announced := by
  cases ev with
  | arrive fd bytes =>
      cases hst.2
      exact hn.touch fun hreg _ => Or.inl (by simp [hreg])
  | hangUp fd =>
      cases hst.2
      exact hn.touch fun hreg _ => Or.inl (by simp [hreg])
  | fetch fd =>
      cases hst.2
      exact hn.touch fun _ _ => Or.inr rfl
  | newConn fd peername block => exact hn.newConn fd peername block hst.2
  | read fd => exact hn.read hreach hdrains hst
  | send o =>
      obtain ⟨henabled, hnext⟩ := hst
      simp only [Net.next] at hnext
      obtain ⟨core, hcore, rfl⟩ := Option.map_eq_some_iff.mp hnext
      obtain ⟨⟨fd, loop⟩, hsending, -⟩ := henabled
      rw [Option.mem_def] at hsending
      simp only [Reactor.next, hsending, Option.some.injEq] at hcore
      subst hcore
      intro fd' hreg hqueue
      exact hn fd' ((sendTurn_isSome n.core fd loop o fd').symm.trans hreg) hqueue

/-- A connection with an empty buffer stays, unless what it is sent announces too much. -/
theorem recv_stays (hn : (net h).Reachable n) {e : Entry}
    (hkey : n.core.umapFdSockConn fd = some e) (hempty : e.conn.buffered = [])
    (hqueue : (n.sock fd).queue ≠ [])
    (hfront : pkgFront ((n.sock fd).queue.take MAXSOCKBUFF) ≠ .bad) :
    e.Stays h ((n.sock fd).recv e.conn.requested) := by
  obtain ⟨bytes, hbytes⟩ := net_holds hn hkey
  have hnil : bytes = [] := hbytes.buffered_eq.symm.trans hempty
  have hrequested : e.conn.requested = MAXSOCKBUFF := by
    rw [hbytes.requested_eq, hnil, List.length_nil, Nat.sub_zero]
  have hrecv : (n.sock fd).recv e.conn.requested =
      .data ((n.sock fd).queue.take MAXSOCKBUFF) := by
    rw [hrequested, Sock.recv, if_neg (by decide), if_neg hqueue]
  rw [hrecv, Entry.Stays, hempty]
  exact ⟨trivial, fun _ => hfront⟩

/-- A returned event can be handled. -/
theorem read_enabled (hn : (net h).Reachable n) {e : Entry}
    (hkey : n.core.umapFdSockConn fd = some e) (hidle : n.core.sending = none)
    (hready : (n.sock fd).ready = true) : ∃ n', (net h).step n (.read fd) n' := by
  obtain ⟨bytes, hbytes⟩ := net_holds hn hkey
  have hsized := ((holds_invariant h).reachable (net_refines hn)).sized
  obtain ⟨o, ho⟩ : ∃ o, (n.sock fd).recv e.conn.requested = o := ⟨_, rfl⟩
  obtain ⟨r, hread, -⟩ := Entry.handleRead_spec h hsized hbytes (Sock.recv_fits ho)
  have hsome : (n.next h (.read fd)).isSome = true := by
    simp only [Net.next, hkey, ho, Reactor.next, hread, Option.map_some, Option.isSome_some]
  obtain ⟨n', hnext⟩ := Option.isSome_iff_exists.mp hsome
  exact ⟨n', ⟨hidle, hready⟩, hnext⟩

end Reading

/-! ## Main results -/

/-- **Edge-triggered draining.**  An event that leaves its connection open empties the
queue exactly where the receive buffer has room for all of it; and in a run whose events
all find that room, bytes in the queue of a client never wait without an event. -/
theorem edge_drained_iff (h : Host) :
    (∀ n n' fd e, (net h).Reachable n → n.core.umapFdSockConn fd = some e →
      (net h).step n (.read fd) n' → n'.registered fd = true →
      ((n'.sock fd).queue = [] ↔ n.RoomFor fd e)) ∧
    ∀ n₀ n es, (net h).init n₀ → ((net h).restrict (Drains h)).Run n₀ es n →
      n.Announced := by
  constructor
  · intro n n' fd e hn hkey hst hopen
    obtain ⟨-, hrest⟩ := (read_step hn hst).2 e hkey
    rw [hrest hopen]
    exact drop_requested_eq_nil_iff hn hkey
  · intro n₀ n es hinit hrun
    have hstart : n₀.Announced := by
      intro fd _ hqueue
      rw [hinit.2] at hqueue
      exact absurd rfl hqueue
    have hboth : (net h).Reachable n ∧ n.Announced := by
      refine hrun.preserves (P := fun n => (net h).Reachable n ∧ n.Announced) ?_
        ⟨.init hinit, hstart⟩
      intro u ev v hu hst
      exact ⟨hu.1.step hst.2, hu.2.step hu.1 hst.1 hst.2⟩
    exact hboth.2

/-- A reactor that has taken in no connection, and its sockets. -/
def Net.boot : Net := ⟨.boot, fun _ => .closed⟩

/-- A client sends `q` and its event is returned. -/
theorem boot_fetches (h : Host) {q : List UInt8} (hq : q ≠ []) :
    ∃ n es e, ((net h).restrict (Drains h)).Run .boot es n ∧
      n.core.umapFdSockConn 5 = some e ∧ e.conn.buffered = [] ∧ n.core.sending = none ∧
      (n.sock 5).queue = q ∧ (n.sock 5).ready = true := by
  obtain ⟨w, hw⟩ : ∃ w, w = Reactor.boot.newConn 5 true emptyBlock := ⟨_, rfl⟩
  have hkey : w.umapFdSockConn 5 = some ⟨SockConn.Init 5 1 emptyBlock, .empty⟩ := by
    rw [hw]
    rfl
  have hidle : w.sending = none := by
    rw [hw]
    rfl
  have hfree : Net.boot.registered 5 = false := rfl
  have h₁ : ((net h).restrict (Drains h)).step .boot (.newConn 5 true emptyBlock)
      (Net.touch ⟨w, fun _ => .closed⟩ 5 .closed) := by
    refine ⟨trivial, ⟨hfree, rfl, emptyBlock_length⟩, ?_⟩
    rw [hw]
    rfl
  have hregistered : (Net.touch ⟨w, fun _ => .closed⟩ 5 .closed).registered 5 = true := by
    simp only [Net.registered, Net.touch, hkey, Option.isSome_some]
  have h₂ : ((net h).restrict (Drains h)).step (Net.touch ⟨w, fun _ => .closed⟩ 5 .closed)
      (.arrive 5 q) (Net.touch ⟨w, fun _ => .closed⟩ 5 ⟨q, false, true, false⟩) := by
    refine ⟨trivial, hq, ?_⟩
    simp only [Net.next, hregistered]
    simp [Net.touch, Sock.closed]
  have h₃ : ((net h).restrict (Drains h)).step
      (Net.touch ⟨w, fun _ => .closed⟩ 5 ⟨q, false, true, false⟩)
      (.fetch 5) (Net.touch ⟨w, fun _ => .closed⟩ 5 ⟨q, false, false, true⟩) := by
    refine ⟨trivial, ⟨hidle, ?_⟩, ?_⟩
    · simp only [Net.touch, Function.update_self]
    · simp [Net.next, Net.touch]
  have hempty : (SockConn.Init 5 1 emptyBlock).buffered = [] :=
    (Holds.init 5 1 emptyBlock_length).buffered_eq
  refine ⟨_, _, _, ((System.Run.single h₁).snoc h₂).snoc h₃, hkey, hempty, hidle, ?_, ?_⟩
  · simp only [Net.touch, Function.update_self]
  · simp only [Net.touch, Function.update_self]

theorem boot_reaches {h : Host} {es : List NetEvent} {n : Net}
    (hrun : ((net h).restrict (Drains h)).Run .boot es n) : (net h).Reachable n := by
  have hall : (net h).Run .boot es n := by
    refine hrun.mono ?_
    intro u ev v hst
    exact hst.2
  exact ⟨_, es, ⟨Reactor.boot_fresh, rfl⟩, hall⟩

/-- One byte is read, and nothing is left. -/
theorem edge_drained_iff_one_byte :
    ∃ n n' : Net, (n.sock 5).queue = [0] ∧ (net .x86_64).step n (.read 5) n' ∧
      (n'.sock 5).queue = [] ∧ n'.Announced := by
  obtain ⟨n, es, e, hrun, hkey, hempty, hidle, hqueue, hready⟩ :=
    boot_fetches .x86_64 (List.cons_ne_nil 0 [])
  have hn := boot_reaches hrun
  obtain ⟨n', hst⟩ := read_enabled hn hkey hidle hready
  have hroom : n.RoomFor 5 e := by
    rw [Net.RoomFor, hempty, hqueue]
    decide
  have hstays : e.Stays .x86_64 ((n.sock 5).recv e.conn.requested) := by
    refine recv_stays hn hkey hempty ?_ ?_ <;> rw [hqueue]
    · exact List.cons_ne_nil 0 []
    · decide
  obtain ⟨hdrained, hannounced⟩ := edge_drained_iff .x86_64
  have hopen := ((read_step hn hst).2 e hkey).1.mpr hstays
  refine ⟨n, n', hqueue, hst, (hdrained n n' 5 e hn hkey hst hopen).mpr hroom, ?_⟩
  refine hannounced .boot n' _ ⟨Reactor.boot_fresh, rfl⟩ (hrun.snoc ⟨?_, hst⟩)
  intro e' he' _
  rw [hkey, Option.mem_some_iff] at he'
  exact he' ▸ hroom

/-- **A burst larger than the receive buffer is not read to its end**: one byte stays in
the queue, and no event is due for it. -/
theorem burst_left_in_queue :
    ¬ ∀ (h : Host) (n n' : Net) (fd : Int), (net h).Reachable n →
      (net h).step n (.read fd) n' → n'.registered fd = true → (n'.sock fd).queue = [] := by
  intro hall
  obtain ⟨n, es, e, hrun, hkey, hempty, hidle, hqueue, hready⟩ :=
    @boot_fetches .x86_64 (List.replicate 24 0 ++ List.replicate 65512 0)
      (List.append_ne_nil_of_left_ne_nil (List.cons_ne_nil _ _) _)
  have hn := boot_reaches hrun
  obtain ⟨n', hst⟩ := read_enabled hn hkey hidle hready
  have hstays : e.Stays .x86_64 ((n.sock 5).recv e.conn.requested) := by
    refine recv_stays hn hkey hempty ?_ ?_ <;> rw [hqueue]
    · exact List.append_ne_nil_of_left_ne_nil (List.cons_ne_nil _ _) _
    · have hshort : (List.replicate 24 (0 : UInt8)).length ≤ MAXSOCKBUFF := by decide
      rw [List.take_append, List.take_of_length_le hshort]
      rw [pkgFront_append _ pkgFront_zero]
      exact fun hbad => by cases hbad
  obtain ⟨hopen, hrest⟩ := (read_step hn hst).2 e hkey
  have hdrained := hall .x86_64 n n' 5 hn hst (hopen.mpr hstays)
  rw [hrest (hopen.mpr hstays)] at hdrained
  have hroom := (drop_requested_eq_nil_iff hn hkey).mp hdrained
  rw [Net.RoomFor, hempty, hqueue, List.length_append, List.length_replicate,
    List.length_replicate] at hroom
  exact absurd hroom (by decide)

end MyGenSvr.Ports
