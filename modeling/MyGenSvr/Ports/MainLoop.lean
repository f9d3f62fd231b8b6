import MyGenSvr.Ports.HandleAccept
import MyGenSvr.Ports.WakeUp

/-!
# The main loop

The whole process: the main thread waits for edges of the listening socket and takes
connections out of its backlog, next to the pool that serves them.  The kernel queues
the connections of clients and raises an edge for each; `epoll_wait` returns the
socket once for all edges since, and `HandleAccept` has to empty the backlog.  The
bodies of its loops are those of `Ports.HandleAccept`; what `OnNewConn` does, with the write
that may block, and the reactor threads are the steps of `Ports.Pool`.

`accept` returns a descriptor that is not open or fails.  A connection whose call fails
for a reason of its own is gone; after every other error it is still there.

## Main results

* `server_refines` — what the process does to its pool is a run of the pool.
* `backlog_announced_iff` — when no connection is left in the backlog unannounced.
* `arrivals_conserved` — where every connection is, from the backlog to the map of its
  reactor.
* `stop_between_batches` — what the main thread still does once it is told to stop.
-/

namespace MyGenSvr.Ports

open MyGenSvr.Verified.Transition

/-- Where the main thread stands: at the test of `g_bIsStop`, in `epoll_wait`, in the
loop over the events, in `HandleAccept`, or behind `MainLoop`. -/
inductive MainPc where
  | test
  | wait
  | dispatch (events : List Int)
  | accepting (events : List Int)
  | returned (iRet : Int)
  deriving DecidableEq, Repr

/-- The process with its listening socket.  Clients are numbered; `arrived` are those
whose connections were queued, `taken` those taken out of the queue with what they got,
`passed` the descriptors handed to `OnNewConn`, each with its reactor. -/
structure Server where
  bIsStop : Bool
  backlog : List Nat
  edge : Bool
  pc : MainPc
  pool : Pool
  arrived : List Nat
  taken : List (Nat × Option Int)
  passed : List (Nat × Int)

/-- The steps of the process. -/
inductive ServerEvent where
  /-- The kernel queues the connection of a client. -/
  | connect (client : Nat)
  /-- `sigterm_handler`. -/
  | signal
  /-- The test of the loop of `MainLoop`. -/
  | test
  /-- `epoll_wait` returns these descriptors, or none and fails. -/
  | wait (events : List Int)
  /-- The next turn of the loop over the events. -/
  | dispatch
  /-- A call of `accept`, and the code of `HandleAccept` up to the next one. -/
  | accept (c : AcceptCall)
  /-- A step of `OnNewConn` or of a reactor thread. -/
  | thread (ev : PoolEvent)
  deriving DecidableEq, Repr

/-- What a call of `accept` does to the backlog, and the descriptor it opens. -/
def Server.take (cfg : PoolCfg) (h : Host) (s : Server) (c : AcceptCall) : Option Server :=
  if 0 < c.newfd then
    match s.backlog with
    | [] => none
    | client :: later =>
        (s.pool.next cfg h (.accept c.newfd)).map fun pool =>
          { s with backlog := later, taken := s.taken ++ [(client, some c.newfd)], pool := pool }
  else
    match c.errno, s.backlog with
    | .perConnection _, client :: later =>
        some { s with backlog := later, taken := s.taken ++ [(client, none)] }
    | _, _ => some s

/-- The loop over the events, at the one at hand. -/
def Server.onDispatch (listenFd : Int) (s : Server) : List Int → Server
  | [] => { s with pc := .test }
  | fd :: rest =>
      if fd = listenFd then { s with pc := .accepting rest }
      else { s with pc := .dispatch rest }

/-- The call of `OnNewConn`, noted; the write in it that may block is a step of the pool. -/
def PoolCfg.pass (cfg : PoolCfg) (passed : List (Nat × Int)) (fd : Int) :
    Option (List (Nat × Int)) := some (passed ++ [(cfg.HashGet fd, fd)])

/-- `HandleAccept` once `accept` has returned. -/
def Server.onAccept (cfg : PoolCfg) (rest : List Int) (s : Server) (c : AcceptCall) : Server :=
  match HandleAcceptBody cfg.pass (s.passed, ()) c with
  | .inl (passed, ()) => { s with passed := passed, pc := .accepting rest }
  | .inr (.returned passed) => { s with passed := passed, pc := .dispatch rest }
  | .inr (.blocked passed) => { s with passed := passed }

/-- The state after a step; `none` where the thread is not there. -/
def Server.next (cfg : PoolCfg) (h : Host) (listenFd : Int) (s : Server) :
    ServerEvent → Option Server
  | .connect client =>
      some { s with
        backlog := s.backlog ++ [client]
        edge := true
        arrived := s.arrived ++ [client] }
  | .signal => some { s with bIsStop := true }
  | .test =>
      if s.pc = .test then
        some { s with pc := if s.bIsStop then .returned 0 else .wait }
      else none
  | .wait events =>
      if s.pc = .wait then
        if events = [] then some { s with pc := .test }
        else
          some { s with
            edge := s.edge && decide (listenFd ∉ events)
            pc := .dispatch events }
      else none
  | .dispatch =>
      match s.pc with
      | .dispatch events => some (s.onDispatch listenFd events)
      | _ => none
  | .accept c =>
      match s.pc with
      | .accepting rest =>
          if s.pool.acceptor = .idle then
            (s.take cfg h c).map fun s => s.onAccept cfg rest c
          else none
      | _ => none
  | .thread (.accept _) => none
  | .thread ev => (s.pool.next cfg h ev).map fun pool => { s with pool := pool }

/-- What the kernel can answer: `epoll_wait` fails or returns the socket, the only one
registered, if it has an edge and is readable; `accept` takes the connection at the head of
the backlog, and fails with `EAGAIN` when there is none. -/
def ServerEnabled (cfg : PoolCfg) (listenFd : Int) (s : Server) : ServerEvent → Prop
  | .wait events => events = [] ∨ (events = [listenFd] ∧ s.edge = true ∧ s.backlog ≠ [])
  | .accept c =>
      (c.Connects ∧ s.backlog ≠ [] ∧ PoolEnabled cfg s.pool (.accept c.newfd)) ∨
        (c.newfd = -1 ∧ (c.errno = .EAGAIN → s.backlog = []) ∧
          ((∃ code, c.errno = .perConnection code) → s.backlog ≠ []))
  | .thread ev => PoolEnabled cfg s.pool ev
  | _ => True

/-- The process after `Listen`: connections that came before the socket was registered
have raised an edge. -/
structure Server.Fresh (cfg : PoolCfg) (s : Server) : Prop where
  edge : s.backlog ≠ [] → s.edge = true
  pc : s.pc = .test
  pool : s.pool.Fresh cfg
  arrived : s.arrived = s.backlog
  taken : s.taken = []
  passed : s.passed = []

/-- The runs of the process. -/
def server (cfg : PoolCfg) (h : Host) (listenFd : Int) : System Server ServerEvent where
  init := Server.Fresh cfg
  step s ev s' := ServerEnabled cfg listenFd s ev ∧ s.next cfg h listenFd ev = some s'

/-! ## What a step can do -/

/-- **All that one step of the process can do.** -/
inductive ServerStep (cfg : PoolCfg) (h : Host) (listenFd : Int) (s : Server) :
    ServerEvent → Server → Prop where
  | connect (client : Nat) :
      ServerStep cfg h listenFd s (.connect client)
        { s with
          backlog := s.backlog ++ [client]
          edge := true
          arrived := s.arrived ++ [client] }
  | signal : ServerStep cfg h listenFd s .signal { s with bIsStop := true }
  | stopped : s.pc = .test → s.bIsStop = true →
      ServerStep cfg h listenFd s .test { s with pc := .returned 0 }
  | entered : s.pc = .test → s.bIsStop = false →
      ServerStep cfg h listenFd s .test { s with pc := .wait }
  | failed : s.pc = .wait → ServerStep cfg h listenFd s (.wait []) { s with pc := .test }
  | ready : s.pc = .wait →
      ServerStep cfg h listenFd s (.wait [listenFd])
        { s with edge := false, pc := .dispatch [listenFd] }
  | handled : s.pc = .dispatch [] →
      ServerStep cfg h listenFd s .dispatch { s with pc := .test }
  | listening (rest : List Int) : s.pc = .dispatch (listenFd :: rest) →
      ServerStep cfg h listenFd s .dispatch { s with pc := .accepting rest }
  | unknown (fd : Int) (rest : List Int) : s.pc = .dispatch (fd :: rest) → fd ≠ listenFd →
      ServerStep cfg h listenFd s .dispatch { s with pc := .dispatch rest }
  | accepted (c : AcceptCall) (rest : List Int) (client : Nat) (later : List Nat)
      (pool' : Pool) : s.pc = .accepting rest → c.Connects → s.backlog = client :: later →
      s.pool.acceptor = .idle → (pool cfg h).step s.pool (.accept c.newfd) pool' →
      ServerStep cfg h listenFd s (.accept c)
        { s with
          backlog := later
          taken := s.taken ++ [(client, some c.newfd)]
          passed := s.passed ++ [(cfg.HashGet c.newfd, c.newfd)]
          pool := pool' }
  | aborted (c : AcceptCall) (rest : List Int) (client : Nat) (later : List Nat) :
      s.pc = .accepting rest → ¬c.FailsWith [.EAGAIN, .EMFILE] → s.backlog = client :: later →
      ServerStep cfg h listenFd s (.accept c)
        { s with backlog := later, taken := s.taken ++ [(client, none)] }
  | retried (c : AcceptCall) : ¬c.FailsWith [.EAGAIN, .EMFILE] →
      ServerStep cfg h listenFd s (.accept c) s
  | left (c : AcceptCall) (rest : List Int) : s.pc = .accepting rest →
      c.FailsWith [.EAGAIN, .EMFILE] → (c.errno = .EAGAIN → s.backlog = []) →
      ServerStep cfg h listenFd s (.accept c) { s with pc := .dispatch rest }
  | thread (ev : PoolEvent) (pool' : Pool) : (∀ fd, ev ≠ .accept fd) →
      (pool cfg h).step s.pool ev pool' →
      ServerStep cfg h listenFd s (.thread ev) { s with pool := pool' }

section Inversion

variable {cfg : PoolCfg} {h : Host} {listenFd : Int} {s s' : Server}

/-- A call of `accept` that takes a connection. -/
theorem accept_connects {c : AcceptCall} {rest : List Int} (hpc : s.pc = .accepting rest)
    (hidle : s.pool.acceptor = .idle) (hc : c.Connects)
    (henabled : PoolEnabled cfg s.pool (.accept c.newfd))
    (hnext : (s.take cfg h c).map (fun s => s.onAccept cfg rest c) = some s') :
    ServerStep cfg h listenFd s (.accept c) s' := by
  obtain ⟨s₁, htake, rfl⟩ := Option.map_eq_some_iff.mp hnext
  have hpos : 0 < c.newfd := hc
  rw [Server.take, if_pos hpos] at htake
  cases hbacklog : s.backlog with
  | nil =>
      rw [hbacklog] at htake
      cases htake
  | cons client later =>
      rw [hbacklog] at htake
      obtain ⟨pool', hpool, rfl⟩ := Option.map_eq_some_iff.mp htake
      have hstep := @ServerStep.accepted cfg h listenFd s c rest client later pool' hpc hc
        hbacklog hidle ⟨henabled, hpool⟩
      convert hstep using 1
      rw [Server.onAccept, turn_connects hc]
      simp only [PoolCfg.pass, hpc]

/-- A call of `accept` that fails. -/
theorem accept_fails {c : AcceptCall} {rest : List Int} (hpc : s.pc = .accepting rest)
    (hneg : c.newfd = -1) (hdrained : c.errno = .EAGAIN → s.backlog = [])
    (hnext : (s.take cfg h c).map (fun s => s.onAccept cfg rest c) = some s') :
    ServerStep cfg h listenFd s (.accept c) s' := by
  have hfail : c.newfd < 0 := by omega
  have hno : ¬0 < c.newfd := by omega
  obtain ⟨s₁, htake, rfl⟩ := Option.map_eq_some_iff.mp hnext
  rw [Server.take, if_neg hno] at htake
  by_cases hends : c.FailsWith [.EAGAIN, .EMFILE]
  · have hstay : s₁ = s := by
      rcases List.mem_pair.mp hends.2 with herrno | herrno
      · rw [herrno] at htake
        exact (Option.some.inj htake).symm
      · rw [herrno] at htake
        exact (Option.some.inj htake).symm
    rw [hstay, Server.onAccept, turn_ends hends]
    exact .left c rest hpc hends hdrained
  · have hgo : s₁.onAccept cfg rest c = { s₁ with pc := .accepting rest } := by
      rw [Server.onAccept, turn_fails hfail hends]
    rw [hgo]
    split at htake
    · rename_i code client later herrno hbacklog
      rw [← Option.some.inj htake, ← hpc]
      exact .aborted c rest client later hpc hends hbacklog
    · rw [← Option.some.inj htake, ← hpc]
      exact .retried c hends

/-- **The step inversion of the process.** -/
theorem Server.next_cases {ev : ServerEvent} (hst : (server cfg h listenFd).step s ev s') :
    ServerStep cfg h listenFd s ev s' := by
  obtain ⟨henabled, hnext⟩ := hst
  cases ev with
  | connect client =>
      rw [Server.next, Option.some.injEq] at hnext
      exact hnext ▸ .connect client
  | signal =>
      rw [Server.next, Option.some.injEq] at hnext
      exact hnext ▸ .signal
  | test =>
      simp only [Server.next, Option.ite_none_right_eq_some, Option.some.injEq] at hnext
      obtain ⟨hpc, hnext⟩ := hnext
      cases hstop : s.bIsStop with
      | true =>
          rw [if_pos hstop] at hnext
          exact hnext ▸ .stopped hpc hstop
      | false =>
          rw [if_neg (by rw [hstop]; exact Bool.false_ne_true)] at hnext
          exact hnext ▸ .entered hpc hstop
  | wait events =>
      simp only [Server.next, Option.ite_none_right_eq_some] at hnext
      obtain ⟨hpc, hnext⟩ := hnext
      rcases henabled with rfl | ⟨rfl, -, -⟩
      · rw [if_pos rfl, Option.some.injEq] at hnext
        exact hnext ▸ .failed hpc
      · have hlisten : decide (listenFd ∉ [listenFd]) = false :=
          decide_eq_false fun hno => hno (List.mem_singleton_self listenFd)
        rw [if_neg (List.cons_ne_nil _ _), hlisten, Bool.and_false, Option.some.injEq] at hnext
        exact hnext ▸ .ready hpc
  | dispatch =>
      simp only [Server.next] at hnext
      cases hpc : s.pc with
      | dispatch events =>
          rw [hpc, Option.some.injEq] at hnext
          cases events with
          | nil => exact hnext ▸ .handled hpc
          | cons fd rest =>
              rw [Server.onDispatch] at hnext
              by_cases hfd : fd = listenFd
              · rw [if_pos hfd] at hnext
                exact hnext ▸ .listening rest (hfd ▸ hpc)
              · rw [if_neg hfd] at hnext
                exact hnext ▸ .unknown fd rest hpc hfd
      | _ =>
          rw [hpc] at hnext
          cases hnext
  | accept c =>
      simp only [Server.next] at hnext
      cases hpc : s.pc with
      | accepting rest =>
          rw [hpc] at hnext
          dsimp only at hnext
          by_cases hidle : s.pool.acceptor = .idle
          · rw [if_pos hidle] at hnext
            rcases henabled with ⟨hc, -, hpool⟩ | ⟨hneg, hdrained, -⟩
            · exact accept_connects hpc hidle hc hpool hnext
            · exact accept_fails hpc hneg hdrained hnext
          · rw [if_neg hidle] at hnext
            cases hnext
      | _ =>
          rw [hpc] at hnext
          cases hnext
  | thread ev =>
      have hthread : ∀ fd, ev ≠ .accept fd := by
        rintro fd rfl
        rw [Server.next] at hnext
        cases hnext
      have hmap : (s.pool.next cfg h ev).map (fun pool => { s with pool := pool }) = some s' := by
        rw [← hnext]
        cases ev with
        | accept fd => exact absurd rfl (hthread fd)
        | _ => rfl
      obtain ⟨pool', hpool, rfl⟩ := Option.map_eq_some_iff.mp hmap
      exact .thread ev pool' hthread ⟨henabled, hpool⟩

/-- **The process refines its pool.** -/
theorem server_refines (hs : (server cfg h listenFd).Reachable s) :
    (pool cfg h).Reachable s.pool := by
  refine System.invariant_of_step (P := fun s : Server => (pool cfg h).Reachable s.pool) ?_ ?_ hs
  · intro s hfresh
    exact .init hfresh.pool
  · intro s ev s' _ hpool hst
    cases Server.next_cases hst with
    | accepted c rest client later pool' _ _ _ _ hstep => exact hpool.step hstep
    | thread ev pool' _ hstep => exact hpool.step hstep
    | _ => exact hpool

end Inversion

/-! ## Connections in the backlog -/

/-- The main thread will call `HandleAccept` before it waits again, or is in it. -/
def MainPc.Comes (listenFd : Int) : MainPc → Prop
  | .dispatch events => listenFd ∈ events
  | .accepting _ => True
  | _ => False

/-- Connections in the backlog have an edge pending, or the main thread comes for them. -/
def Server.Announced (listenFd : Int) (s : Server) : Prop :=
  s.backlog ≠ [] → s.edge = true ∨ s.pc.Comes listenFd

/-- The step is not one where `HandleAccept` leaves at the limit of open files with
connections in the backlog, of which nothing else will tell. -/
def Relieved (listenFd : Int) (s : Server) (ev : ServerEvent) : Prop :=
  ∀ c rest, ev = .accept c → s.pc = .accepting rest → c.FailsWith [.EMFILE] →
    s.backlog = [] ∨ s.edge = true ∨ listenFd ∈ rest

section Announcing

variable {cfg : PoolCfg} {h : Host} {listenFd : Int} {s s' : Server}

theorem Server.Announced.step_iff (hs : s.Announced listenFd) {ev : ServerEvent}
    (hst : ServerStep cfg h listenFd s ev s') :
    s'.Announced listenFd ↔ Relieved listenFd s ev := by
  cases hst with
  | connect client =>
      refine iff_of_true (fun _ => Or.inl rfl) ?_
      rintro c rest ⟨⟩
  | signal =>
      refine iff_of_true hs ?_
      rintro c rest ⟨⟩
  | stopped hpc | entered hpc =>
      refine iff_of_true ?_ (by rintro c rest ⟨⟩)
      intro hne
      have hbefore := hs hne
      rw [hpc] at hbefore
      exact Or.inl (hbefore.resolve_right id)
  | failed hpc =>
      refine iff_of_true ?_ (by rintro c rest ⟨⟩)
      intro hne
      have hbefore := hs hne
      rw [hpc] at hbefore
      exact Or.inl (hbefore.resolve_right id)
  | ready hpc =>
      refine iff_of_true ?_ (by rintro c rest ⟨⟩)
      intro _
      exact Or.inr (List.mem_singleton_self listenFd)
  | handled hpc =>
      refine iff_of_true ?_ (by rintro c rest ⟨⟩)
      intro hne
      have hbefore := hs hne
      rw [hpc] at hbefore
      exact Or.inl (hbefore.resolve_right List.not_mem_nil)
  | listening rest hpc =>
      refine iff_of_true ?_ (by rintro c rest ⟨⟩)
      intro _
      exact Or.inr trivial
  | unknown fd rest hpc hfd =>
      refine iff_of_true ?_ (by rintro c rest ⟨⟩)
      intro hne
      have hbefore := hs hne
      rw [hpc] at hbefore
      rcases hbefore with hedge | hmem
      · exact Or.inl hedge
      · exact Or.inr ((List.mem_cons.mp hmem).resolve_left (Ne.symm hfd))
  | accepted c rest client later pool' hpc hc =>
      refine iff_of_true (fun _ => Or.inr (by rw [hpc]; trivial)) ?_
      rintro c' rest' hev - hfail
      obtain rfl := ServerEvent.accept.inj hev
      have hneg : c.newfd < 0 := hfail.1
      have hpos : 0 < c.newfd := hc
      omega
  | aborted c rest client later hpc hends =>
      refine iff_of_true (fun _ => Or.inr (by rw [hpc]; trivial)) ?_
      rintro c' rest' hev - hfail
      obtain rfl := ServerEvent.accept.inj hev
      exact absurd ⟨hfail.1, List.mem_cons_of_mem _ hfail.2⟩ hends
  | retried c hends =>
      refine iff_of_true hs ?_
      rintro c' rest' hev - hfail
      obtain rfl := ServerEvent.accept.inj hev
      exact absurd ⟨hfail.1, List.mem_cons_of_mem _ hfail.2⟩ hends
  | left c rest hpc hends hdrained =>
      constructor
      · intro hannounced c' rest' hev hpc' hfail
        obtain rfl := MainPc.accepting.inj (hpc.symm.trans hpc')
        by_cases hempty : s.backlog = []
        · exact Or.inl hempty
        · exact Or.inr (hannounced hempty)
      · intro hrelieved hne
        rcases List.mem_pair.mp hends.2 with herrno | herrno
        · exact absurd (hdrained herrno) hne
        · exact (hrelieved c rest rfl hpc ⟨hends.1, by simp [herrno]⟩).resolve_left hne
  | thread ev pool' hthread =>
      refine iff_of_true hs ?_
      rintro c rest ⟨⟩

theorem Server.Fresh.announced (hs : s.Fresh cfg) : s.Announced listenFd :=
  fun hne => Or.inl (hs.edge hne)

/-- **When no connection is left unannounced**: over every run, in every state reached,
exactly if `HandleAccept` never leaves at the limit of open files with connections in the
backlog and no newer edge. -/
theorem backlog_announced_iff (cfg : PoolCfg) (h : Host) (listenFd : Int) (s₀ s : Server)
    (es : List ServerEvent) (hs₀ : s₀.Fresh cfg) (hrun : (server cfg h listenFd).Run s₀ es s) :
    (((server cfg h listenFd).restrict fun s _ => s.Announced listenFd).Run s₀ es s ∧
        s.Announced listenFd) ↔
      ((server cfg h listenFd).restrict (Relieved listenFd)).Run s₀ es s := by
  refine hrun.throughout (I := fun _ => True) (fun _ _ _ _ _ => trivial) ?_ trivial
    hs₀.announced
  intro t ev t' _ ht hst
  exact ht.step_iff (Server.next_cases hst)

end Announcing

/-- The process with no client yet. -/
def Server.boot : Server := ⟨false, [], false, .test, .boot, [], [], []⟩

theorem Server.boot_fresh (capacity : Option Nat) :
    Server.boot.Fresh (PoolCfg.single capacity) where
  edge := fun hne => absurd rfl hne
  pc := rfl
  pool := Pool.boot_fresh capacity
  arrived := rfl
  taken := rfl
  passed := rfl

/-- A client connects while the process may open no more files. -/
theorem boot_strands (h : Host) :
    ∃ s es, (server (.single none) h 9).Run .boot es s ∧ s.backlog = [7] ∧
      ¬s.Announced 9 := by
  let S := server (.single none) h 9
  have h₁ : S.step .boot (.connect 7) ⟨false, [7], true, .test, .boot, [7], [], []⟩ :=
    ⟨trivial, rfl⟩
  have h₂ : S.step ⟨false, [7], true, .test, .boot, [7], [], []⟩ .test
      ⟨false, [7], true, .wait, .boot, [7], [], []⟩ := ⟨trivial, rfl⟩
  have h₃ : S.step ⟨false, [7], true, .wait, .boot, [7], [], []⟩ (.wait [9])
      ⟨false, [7], false, .dispatch [9], .boot, [7], [], []⟩ :=
    ⟨Or.inr ⟨rfl, rfl, List.cons_ne_nil _ _⟩, rfl⟩
  have h₄ : S.step ⟨false, [7], false, .dispatch [9], .boot, [7], [], []⟩ .dispatch
      ⟨false, [7], false, .accepting [], .boot, [7], [], []⟩ := ⟨trivial, rfl⟩
  have h₅ : S.step ⟨false, [7], false, .accepting [], .boot, [7], [], []⟩
      (.accept ⟨-1, .EMFILE⟩) ⟨false, [7], false, .dispatch [], .boot, [7], [], []⟩ := by
    refine ⟨Or.inr ⟨rfl, fun heq => ?_, fun hcode => ?_⟩, rfl⟩
    · cases heq
    · obtain ⟨code, heq⟩ := hcode
      cases heq
  refine ⟨_, _, ((((System.Run.single h₁).snoc h₂).snoc h₃).snoc h₄).snoc h₅, rfl, ?_⟩
  intro hannounced
  rcases hannounced (List.cons_ne_nil _ _) with hedge | hcomes
  · cases hedge
  · exact List.not_mem_nil hcomes

/-- The step that leaves it there is found. -/
theorem backlog_announced_iff_at_limit :
    ∃ s es, (server (.single none) .x86_64 9).Run .boot es s ∧ s.backlog = [7] ∧
      ¬((server (.single none) .x86_64 9).restrict (Relieved 9)).Run .boot es s := by
  obtain ⟨s, es, hrun, hbacklog, hstranded⟩ := boot_strands .x86_64
  refine ⟨s, es, hrun, hbacklog, ?_⟩
  intro hrelieved
  exact hstranded ((backlog_announced_iff (.single none) .x86_64 9 .boot s es
    (Server.boot_fresh none) hrun).mpr hrelieved).2

/-! ## Where every connection is -/

/-- The descriptors accepted, in order. -/
def Server.accepted (s : Server) : List Int := s.taken.filterMap Prod.snd

/-- The descriptors accepted are pushed or about to be. -/
structure Server.Conserved (cfg : PoolCfg) (s : Server) : Prop where
  arrived : s.arrived = s.taken.map Prod.fst ++ s.backlog
  passed : s.passed = s.accepted.map fun fd => (cfg.HashGet fd, fd)
  pushed : ∀ i, s.accepted.filter (fun fd => decide (cfg.HashGet fd = i)) =
    (s.pool.reactors i).pushed ++
      s.pool.acceptor.holds.toList.filter fun fd => decide (cfg.HashGet fd = i)
  positive : ∀ fd, s.pool.acceptor.holds = some fd → 0 < fd

section Conservation

variable {cfg : PoolCfg} {h : Host} {listenFd : Int} {s s' : Server}

/-- A reactor gets a state with the same pushes. -/
theorem set_pushed {p : Pool} {i : Nat} {l : LiteReactorBase}
    (hl : l.pushed = (p.reactors i).pushed) (j : Nat) :
    ((p.set i l).reactors j).pushed = (p.reactors j).pushed :=
  Pool.set_forall (P := fun j l => l.pushed = (p.reactors j).pushed) hl (fun _ _ => rfl) j

/-- What the accepting thread holds and what a reactor was given, over a step that is no
`accept`. -/
theorem PoolStep.pushed_holds {p p' : Pool} {ev : PoolEvent} (hst : PoolStep cfg h p ev p')
    (hthread : ∀ fd, ev ≠ .accept fd) (hpositive : ∀ fd, p.acceptor.holds = some fd → 0 < fd)
    (i : Nat) :
    (p'.reactors i).pushed ++
        p'.acceptor.holds.toList.filter (fun fd => decide (cfg.HashGet fd = i)) =
      (p.reactors i).pushed ++
        p.acceptor.holds.toList.filter fun fd => decide (cfg.HashGet fd = i) := by
  cases hst with
  | declined fd => exact absurd rfl (hthread fd)
  | accept fd => exact absurd rfl (hthread fd)
  | refused fd hpc hneg =>
      have hpos := hpositive fd (by rw [hpc]; rfl)
      omega
  | lock fd hpc hpos hmutex =>
      rw [hpc]
      refine congrArg (· ++ _) (set_pushed ?_ i)
      rfl
  | push fd hpc =>
      rw [hpc]
      show ((p.set (cfg.HashGet fd) _).reactors i).pushed ++ [] = _ ++ [fd].filter _
      rw [List.append_nil, List.filter_singleton]
      by_cases hi : cfg.HashGet fd = i
      · subst hi
        have hself : decide (cfg.HashGet fd = cfg.HashGet fd) = true := decide_eq_true rfl
        rw [Pool.set_self, hself, cond_true]
      · rw [Pool.set_other p (Ne.symm hi), decide_eq_false hi, cond_false, List.append_nil]
  | write fd succeeds hpc =>
      rw [hpc]
      cases succeeds with
      | true =>
          refine congrArg (· ++ _) (set_pushed ?_ i)
          rfl
      | false => rfl
  | unlock fd hpc =>
      rw [hpc]
      refine congrArg (· ++ _) (set_pushed ?_ i)
      rfl
  | loop j ev l' sys hloop => exact congrArg (· ++ _) (set_pushed hloop.pipe.1 i)

/-- What is in the hands of the accepting thread is a descriptor. -/
theorem PoolStep.holds_pos {p p' : Pool} {ev : PoolEvent} (hst : PoolStep cfg h p ev p')
    (hpositive : ∀ fd, p.acceptor.holds = some fd → 0 < fd) (fd : Int)
    (hholds : p'.acceptor.holds = some fd) : 0 < fd := by
  cases hst with
  | declined fd' => exact hpositive fd hholds
  | accept fd' hidle hpos => exact Option.some.inj hholds ▸ hpos
  | refused fd' => cases hholds
  | lock fd' hpc hpos => exact Option.some.inj hholds ▸ hpos
  | push fd' => cases hholds
  | write fd' succeeds =>
      cases succeeds with
      | true => cases hholds
      | false => cases hholds
  | unlock fd' => cases hholds
  | loop j ev l' sys => exact hpositive fd hholds

/-- **One step of the process.** -/
theorem Server.Conserved.step (hs : s.Conserved cfg) {ev : ServerEvent}
    (hst : ServerStep cfg h listenFd s ev s') : s'.Conserved cfg := by
  cases hst with
  | connect client =>
      refine ⟨?_, hs.passed, hs.pushed, hs.positive⟩
      show s.arrived ++ [client] = _
      rw [hs.arrived, List.append_assoc]
  | accepted c rest client later pool' hpc hc hbacklog hidle hstep =>
      have hpos : 0 < c.newfd := hc
      have hpool := Pool.next_cases hstep.2
      have haccepted : Server.accepted { s with
          backlog := later
          taken := s.taken ++ [(client, some c.newfd)]
          passed := s.passed ++ [(cfg.HashGet c.newfd, c.newfd)]
          pool := pool' } = s.accepted ++ [c.newfd] := by
        rw [Server.accepted, List.filterMap_append]
        rfl
      refine ⟨?_, ?_, ?_, hpool.holds_pos hs.positive⟩
      · show s.arrived = (s.taken ++ [(client, some c.newfd)]).map Prod.fst ++ later
        rw [hs.arrived, hbacklog, List.map_append, List.append_assoc]
        rfl
      · rw [haccepted, List.map_append, ← hs.passed]
        rfl
      · intro i
        have hbefore := hs.pushed i
        rw [hidle] at hbefore
        cases hpool with
        | declined fd hneg => omega
        | accept fd =>
            rw [haccepted, List.filter_append, hbefore]
            show _ ++ [] ++ _ = _
            rw [List.append_nil]
            rfl
  | aborted c rest client later hpc hends hbacklog =>
      have haccepted : Server.accepted { s with
          backlog := later
          taken := s.taken ++ [(client, none)] } = s.accepted := by
        rw [Server.accepted, List.filterMap_append]
        exact List.append_nil _
      refine ⟨?_, ?_, ?_, hs.positive⟩
      · show s.arrived = (s.taken ++ [(client, none)]).map Prod.fst ++ later
        rw [hs.arrived, hbacklog, List.map_append, List.append_assoc]
        rfl
      · rw [haccepted]
        exact hs.passed
      · intro i
        rw [haccepted]
        exact hs.pushed i
  | thread ev pool' hthread hstep =>
      have hpool := Pool.next_cases hstep.2
      refine ⟨hs.arrived, hs.passed, ?_, hpool.holds_pos hs.positive⟩
      intro i
      rw [hpool.pushed_holds hthread hs.positive i]
      exact hs.pushed i
  | _ => exact ⟨hs.arrived, hs.passed, hs.pushed, hs.positive⟩

theorem Server.Fresh.conserved (hs : s.Fresh cfg) : s.Conserved cfg where
  arrived := by rw [hs.arrived, hs.taken]; rfl
  passed := by rw [Server.accepted, hs.passed, hs.taken]; rfl
  pushed := by
    intro i
    rw [Server.accepted, hs.taken, (hs.pool.reactors i).pushed, hs.pool.acceptor]
    rfl
  positive := by simp [hs.pool.acceptor, AcceptorPc.holds]

theorem server_conserved (hs : (server cfg h listenFd).Reachable s) : s.Conserved cfg := by
  refine System.invariant_of_step (P := fun s : Server => s.Conserved cfg)
    (fun s hs => Server.Fresh.conserved hs) ?_ hs
  intro s ev s' _ hs hst
  exact hs.step (Server.next_cases hst)

end Conservation

/-- **No connection is lost, duplicated or reordered.**  In every reachable state of the
process whose notifications succeed, whatever its threads and its clients do: the
connections queued are those taken out of the backlog, in order, and those still in it; and
the descriptors accepted that hash to a reactor are, in order, those it has inserted or
closed, the one it has in hand, those in its queue and the one about to be pushed there. -/
theorem arrivals_conserved (cfg : PoolCfg) (h : Host) (listenFd : Int)
    (hwrite : cfg.writeMayFail = false) (s : Server)
    (hs : (server cfg h listenFd).Reachable s) :
    s.arrived = s.taken.map Prod.fst ++ s.backlog ∧
    s.passed = s.accepted.map (fun fd => (cfg.HashGet fd, fd)) ∧
    ∀ i, s.accepted.filter (fun fd => decide (cfg.HashGet fd = i)) =
        (s.pool.reactors i).settled.map Prod.fst ++ (s.pool.reactors i).pc.hand.toList ++
          (s.pool.reactors i).queConnFd ++
          s.pool.acceptor.holds.toList.filter (fun fd => decide (cfg.HashGet fd = i)) ∧
      ∀ fd fate, (fd, fate) ∈ (s.pool.reactors i).settled →
        fate = .inserted ∨ fate = .closed := by
  have hconserved := server_conserved hs
  obtain ⟨hwoken, hfates⟩ := pool_woken hwrite (server_refines hs)
  refine ⟨hconserved.arrived, hconserved.passed, ?_⟩
  intro i
  refine ⟨?_, hfates i⟩
  rw [hconserved.pushed i, (hwoken i).order, (hwoken i).handled]

/-- A client is accepted on descriptor 5 and handed to the only reactor. -/
theorem boot_queues (h : Host) :
    ∃ s, (server (.single none) h 9).Reachable s ∧ s.arrived = [7] ∧ s.accepted = [5] ∧
      (s.pool.reactors 0).queConnFd = [5] := by
  let S := server (.single none) h 9
  have h₀ : S.Reachable .boot := .init (Server.boot_fresh none)
  have h₁ := h₀.step (show S.step _ (.connect 7) _ from ⟨trivial, rfl⟩)
  have h₂ := h₁.step (show S.step _ .test _ from ⟨trivial, rfl⟩)
  have h₃ := h₂.step (show S.step _ (.wait [9]) _ from
    ⟨Or.inr ⟨rfl, rfl, List.cons_ne_nil _ _⟩, rfl⟩)
  have h₄ := h₃.step (show S.step _ .dispatch _ from ⟨trivial, rfl⟩)
  have hnew : (5 : Int) ∉ Pool.boot.kernel.openFds := by decide
  have h₅ := h₄.step (show S.step _ (.accept ⟨5, .EAGAIN⟩) _ from
    ⟨Or.inl ⟨show (0 : Int) < 5 by decide, List.cons_ne_nil _ _, hnew⟩, rfl⟩)
  have h₆ := h₅.step (show S.step _ (.thread .lock) _ from ⟨trivial, rfl⟩)
  have h₇ := h₆.step (show S.step _ (.thread .push) _ from ⟨trivial, rfl⟩)
  have h₈ := h₇.step (show S.step _ (.thread (.write true)) _ from
    ⟨fun _ _ _ hnone => (by cases hnone), rfl⟩)
  exact ⟨_, h₈, rfl, rfl, rfl⟩

/-- The descriptor of that client is in the queue of the reactor. -/
theorem arrivals_conserved_one_client :
    ∃ s : Server, s.arrived = [7] ∧ s.arrived = s.taken.map Prod.fst ++ s.backlog ∧
      s.accepted = [5] ∧ (s.pool.reactors 0).queConnFd = [5] ∧
      s.passed = s.accepted.map fun fd => ((PoolCfg.single none).HashGet fd, fd) := by
  obtain ⟨s, hs, harrived, haccepted, hqueue⟩ := boot_queues .x86_64
  obtain ⟨htaken, hpassed, -⟩ := arrivals_conserved (.single none) .x86_64 9 rfl s hs
  exact ⟨s, harrived, htaken, haccepted, hqueue, hpassed⟩

/-! ## Stopping -/

/-- The returns of `epoll_wait` in a run. -/
def ServerEvent.isWait : ServerEvent → Bool
  | .wait _ => true
  | _ => false

/-- The main thread is in `epoll_wait`. -/
def MainPc.waits : MainPc → Nat
  | .wait => 1
  | _ => 0

theorem stopped_step {cfg : PoolCfg} {h : Host} {listenFd : Int} {s s' : Server}
    {ev : ServerEvent} (hst : ServerStep cfg h listenFd s ev s') (hstop : s.bIsStop = true) :
    s'.bIsStop = true ∧ (if ev.isWait then 1 else 0) + s'.pc.waits = s.pc.waits := by
  cases hst with
  | connect client => exact ⟨hstop, Nat.zero_add _⟩
  | signal => exact ⟨rfl, Nat.zero_add _⟩
  | stopped hpc => exact ⟨hstop, by rw [hpc]; rfl⟩
  | entered hpc hgo =>
      rw [hstop] at hgo
      cases hgo
  | failed hpc => exact ⟨hstop, by rw [hpc]; rfl⟩
  | ready hpc => exact ⟨hstop, by rw [hpc]; rfl⟩
  | handled hpc => exact ⟨hstop, by rw [hpc]; rfl⟩
  | listening rest hpc => exact ⟨hstop, by rw [hpc]; rfl⟩
  | unknown fd rest hpc => exact ⟨hstop, by rw [hpc]; rfl⟩
  | accepted c rest client later pool' hpc => exact ⟨hstop, Nat.zero_add _⟩
  | aborted c rest client later hpc => exact ⟨hstop, Nat.zero_add _⟩
  | retried c => exact ⟨hstop, Nat.zero_add _⟩
  | left c rest hpc => exact ⟨hstop, by rw [hpc]; rfl⟩
  | thread ev pool' => exact ⟨hstop, Nat.zero_add _⟩

/-- **The flag is seen between batches.**  Once it is set, `epoll_wait` returns to the main
thread at most once more, if it was in it; and the main thread leaves `MainLoop`, with
success, only when the flag is set. -/
theorem stop_between_batches (cfg : PoolCfg) (h : Host) (listenFd : Int) (s t : Server)
    (es : List ServerEvent) (hs : (server cfg h listenFd).Reachable s)
    (hrun : (server cfg h listenFd).Run s es t) :
    (s.bIsStop = true → es.countP ServerEvent.isWait + t.pc.waits = s.pc.waits) ∧
      ∀ iRet, t.pc = .returned iRet → t.bIsStop = true ∧ iRet = 0 := by
  constructor
  · intro hstop
    have hboth : t.bIsStop = true ∧ es.countP ServerEvent.isWait + t.pc.waits = s.pc.waits := by
      induction hrun with
      | nil => exact ⟨hstop, Nat.zero_add _⟩
      | snoc hprefix hlast ih =>
          obtain ⟨hbefore, hcount⟩ := ih
          obtain ⟨hafter, hlastcount⟩ := stopped_step (Server.next_cases hlast) hbefore
          refine ⟨hafter, ?_⟩
          rw [List.countP_append, List.countP_singleton, Nat.add_assoc, hlastcount, hcount]
    exact hboth.2
  · have hleft : ∀ {s : Server}, (server cfg h listenFd).Reachable s →
        ∀ iRet, s.pc = .returned iRet → s.bIsStop = true ∧ iRet = 0 := by
      intro s hs
      refine System.invariant_of_step
        (P := fun s : Server => ∀ iRet, s.pc = .returned iRet → s.bIsStop = true ∧ iRet = 0)
        ?_ ?_ hs
      · intro s (hfresh : s.Fresh cfg) iRet hpc
        rw [hfresh.pc] at hpc
        cases hpc
      · intro s ev s' _ hs hst iRet hpc
        cases Server.next_cases hst with
        | connect client => exact hs iRet hpc
        | signal => exact ⟨rfl, (hs iRet hpc).2⟩
        | stopped hbefore hstop => exact ⟨hstop, (MainPc.returned.inj hpc).symm⟩
        | accepted c rest => exact hs iRet hpc
        | aborted c rest => exact hs iRet hpc
        | retried c => exact hs iRet hpc
        | thread ev pool' => exact hs iRet hpc
        | _ => cases hpc
    exact hleft (hs.run hrun)

/-- The signal arrives in `epoll_wait`: it fails, and the main thread leaves. -/
theorem stop_between_batches_interrupted :
    ∃ s t : Server, s.pc = .wait ∧ t.pc = .returned 0 ∧
      (server (.single none) .x86_64 9).Run s [.wait [], .test] t ∧
      [ServerEvent.wait [], .test].countP ServerEvent.isWait + t.pc.waits = s.pc.waits ∧
      t.bIsStop = true := by
  let S := server (.single none) .x86_64 9
  let s : Server := ⟨true, [], false, .wait, .boot, [], [], []⟩
  have h₀ : S.Reachable .boot := .init (Server.boot_fresh none)
  have h₁ := h₀.step (show S.step _ .test _ from ⟨trivial, rfl⟩)
  have h₂ := h₁.step (show S.step _ .signal s from ⟨trivial, rfl⟩)
  have h₃ := System.Run.single (show S.step s (.wait []) _ from ⟨Or.inl rfl, rfl⟩)
  have h₄ := h₃.snoc (show S.step _ .test _ from ⟨trivial, rfl⟩)
  obtain ⟨hcount, hflag⟩ := stop_between_batches (.single none) .x86_64 9 _ _ _ h₂ h₄
  exact ⟨_, _, rfl, rfl, h₄, hcount rfl, (hflag 0 rfl).1⟩

end MyGenSvr.Ports
