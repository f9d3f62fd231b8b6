import MyGenSvr.Ports.ReactorRun

/-!
# The accepting thread and the reactor threads

`LiteReactorBase` and its pool: one accepting thread that hands connections to
one of `n` reactors through a queue, a mutex and a notify pipe, and the event
loop of each reactor.  A step is a stretch of one thread between two points at
which another thread or the kernel can come in.  The kernel's table of open
descriptors and its epoll sets are part of the state.

## Main results

* `LiteReactorBase.next_cases` — all that one step of a reactor thread can do.
* `core_reachable` — what a thread of the pool does to its connections is a run
  of the reactor of `Ports.Reactor`.
-/

namespace MyGenSvr.Ports

open MyGenSvr.Verified.Transition

/-- Most reactors a pool can have. -/
def LITEREACTORPOOL_MAX_SIZE : Nat := 150

/-- A pool that `LiteReactorPool::Init` accepts, with the read ends of the notify
pipes of each reactor, and what the notify pipes can do: how many bytes they
hold before a write blocks (`none` for as many as it takes), and whether a write
can fail. -/
structure PoolCfg where
  iPoolSize : Nat
  size_pos : 0 < iPoolSize
  size_le : iPoolSize ≤ LITEREACTORPOOL_MAX_SIZE
  connNotifyRecvFd : Nat → Int
  dataNotifyRecvFd : Nat → Int
  capacity : Option Nat
  writeMayFail : Bool

/-- `HashGet`: the index of the reactor that serves a descriptor. -/
def PoolCfg.HashGet (cfg : PoolCfg) (fd : Int) : Nat := (fd % cfg.iPoolSize).toNat

/-- `HashGet` stays inside the vector of reactors. -/
theorem PoolCfg.HashGet_lt (cfg : PoolCfg) (fd : Int) : cfg.HashGet fd < cfg.iPoolSize := by
  have hpos := cfg.size_pos
  have hlow := Int.emod_nonneg fd (show (cfg.iPoolSize : Int) ≠ 0 by omega)
  have hhigh := Int.emod_lt_of_pos fd (show (0 : Int) < cfg.iPoolSize by omega)
  unfold PoolCfg.HashGet
  omega

/-! ## One reactor thread -/

/-- Who holds `_mutexConn`. -/
inductive Holder where
  | acceptor
  | reactor
  deriving DecidableEq, Repr

/-- Where a reactor thread stands.  `popped` to `registered` are the stages of a
descriptor in `HandleNewConn`, `reading` to `erasing` those of `HandleRead`. -/
inductive Pc where
  | wait
  | dispatch
  | lockWait
  | draining
  | popped (fd : Int)
  | rejected (fd : Int)
  | inited (fd : Int) (block : List UInt8)
  | registered (fd : Int) (block : List UInt8)
  | reading (fd : Int)
  | orphan (fd : Int)
  | closing (fd : Int) (why : CloseReason) (e : Entry)
  | erasing (fd : Int) (why : CloseReason) (e : Entry)
  | sending
  deriving DecidableEq, Repr

/-- What became of a descriptor that `HandleNewConn` popped. -/
inductive Settled where
  | inserted
  | closed
  | dropped
  deriving DecidableEq, Repr

/-- A reactor and its thread.  `core` has the data only the thread touches;
`pipe` and `edge` are the bytes in the notify pipe and whether its read end has
an edge that `epoll_wait` has not returned yet.  `pushed`, `popped` and `settled`
record the descriptors that went through the queue. -/
structure LiteReactorBase where
  core : Reactor
  queConnFd : List Int
  mutexConn : Option Holder
  pipe : Nat
  edge : Bool
  events : List Int
  pc : Pc
  pushed : List Int
  popped : List Int
  settled : List (Int × Settled)

/-- The steps of a reactor thread, with what the kernel answers. -/
inductive LoopEvent where
  /-- `epoll_wait` returns these descriptors. -/
  | wait (events : List Int)
  /-- The next turn of the loop over the events. -/
  | dispatch
  /-- `HandleNewConn` takes the mutex. -/
  | lock
  /-- The test of the loop of `HandleNewConn`. -/
  | pop
  /-- `SockConn::Init`, with the outcome of `getpeername`. -/
  | init (peername : Bool) (block : List UInt8)
  /-- `epoll_ctl` of the new descriptor. -/
  | ctl
  /-- The insertion into the map. -/
  | insert
  /-- `HandleRead` up to the point where the connection has to be closed, or the
  reply sent. -/
  | recv (o : RecvOutcome)
  | send (o : SendOutcome)
  | close
  | erase
  deriving DecidableEq, Repr

/-- The system calls that change the tables of the kernel. -/
inductive Syscall where
  | none
  | add (fd : Int)
  | close (fd : Int)
  deriving DecidableEq, Repr

namespace LiteReactorBase

/-- The thread goes on after a reading event that does not close. -/
def resume (l : LiteReactorBase) (core : Reactor) : LiteReactorBase :=
  { l with core := core, pc := if core.sending.isSome then .sending else .dispatch }

/-- `svc`: the event at hand. -/
def onDispatch (cfg : PoolCfg) (i : Nat) (l : LiteReactorBase) : LiteReactorBase :=
  match l.events with
  | [] => { l with pc := .wait }
  | fd :: rest =>
      if fd = cfg.connNotifyRecvFd i then { l with events := rest, pc := .lockWait }
      else if fd = cfg.dataNotifyRecvFd i then { l with events := rest }
      else { l with events := rest, pc := .reading fd }

/-- `HandleNewConn`: the head of the queue, or the end of the function, where the
guard gives the mutex back. -/
def onPop (l : LiteReactorBase) : LiteReactorBase :=
  match l.queConnFd with
  | [] => { l with mutexConn := none, pc := .dispatch }
  | fd :: rest =>
      if fd ≤ 0 then
        { l with
          queConnFd := rest
          popped := l.popped ++ [fd]
          settled := l.settled ++ [(fd, .dropped)] }
      else { l with queConnFd := rest, popped := l.popped ++ [fd], pc := .popped fd }

/-- `HandleRead`. -/
def onRecv (h : Host) (l : LiteReactorBase) (fd : Int) (o : RecvOutcome) :
    Option LiteReactorBase :=
  match l.core.umapFdSockConn fd with
  | none => some { l with pc := .orphan fd }
  | some e =>
      match e.handleRead h l.core.buffers o with
      | none => none
      | some (.close why e) => some { l with pc := .closing fd why e }
      | some r => some (l.resume (l.core.conclude fd r))

/-- One step of the thread, and the system call it makes; `none` when the thread
is not there, or is blocked, or faults. -/
def next (cfg : PoolCfg) (h : Host) (i : Nat) (l : LiteReactorBase) :
    LoopEvent → Option (LiteReactorBase × Syscall)
  | .wait events =>
      if l.pc = .wait then
        some ({ l with
          events := events
          edge := l.edge && decide (cfg.connNotifyRecvFd i ∉ events)
          pc := .dispatch }, .none)
      else none
  | .dispatch => if l.pc = .dispatch then some (l.onDispatch cfg i, .none) else none
  | .lock =>
      if l.pc = .lockWait ∧ l.mutexConn = none then
        some ({ l with mutexConn := some .reactor, pc := .draining }, .none)
      else none
  | .pop => if l.pc = .draining then some (l.onPop, .none) else none
  | .init peername block =>
      match l.pc with
      | .popped fd =>
          if peername then some ({ l with pc := .inited fd block }, .none)
          else
            some ({ l with core := l.core.newConn fd false block, pc := .rejected fd }, .none)
      | _ => none
  | .ctl =>
      match l.pc with
      | .inited fd block => some ({ l with pc := .registered fd block }, .add fd)
      | _ => none
  | .insert =>
      match l.pc with
      | .registered fd block =>
          let fate := if (l.core.umapFdSockConn fd).isNone then .inserted else .dropped
          some ({ l with
            core := l.core.newConn fd true block
            settled := l.settled ++ [(fd, fate)]
            pc := .draining }, .none)
      | _ => none
  | .recv o =>
      match l.pc with
      | .reading fd => (l.onRecv h fd o).map fun l => (l, .none)
      | _ => none
  | .send o =>
      if l.pc = .sending then
        (l.core.next h (.send o)).map fun core => (l.resume core, .none)
      else none
  | .close =>
      match l.pc with
      | .rejected fd =>
          some ({ l with settled := l.settled ++ [(fd, .closed)], pc := .draining }, .close fd)
      | .orphan fd => some ({ l with pc := .dispatch }, .close fd)
      | .closing fd why e => some ({ l with pc := .erasing fd why e }, .close fd)
      | _ => none
  | .erase =>
      match l.pc with
      | .erasing fd why e =>
          some ({ l with core := l.core.conclude fd (.close why e), pc := .dispatch }, .none)
      | _ => none

end LiteReactorBase

/-! ## The pool -/

/-- The tables of the kernel: the open descriptors of the process, and the client
descriptors registered with the epoll instance of each reactor. -/
structure Kernel where
  openFds : Finset Int
  epoll : Nat → Finset Int

/-- What a system call of reactor `i` does.  A closed descriptor leaves every
epoll set. -/
def Kernel.serve (k : Kernel) (i : Nat) : Syscall → Kernel
  | .none => k
  | .add fd => { k with epoll := Function.update k.epoll i (insert fd (k.epoll i)) }
  | .close fd => ⟨k.openFds.erase fd, fun j => (k.epoll j).erase fd⟩

/-- Where the accepting thread stands: between two `accept` calls, or with the
descriptor that it is handing over. -/
inductive AcceptorPc where
  | idle
  | accepted (fd : Int)
  | locked (fd : Int)
  | pushed (fd : Int)
  | wrote (fd : Int)
  deriving DecidableEq, Repr

/-- The process. -/
structure Pool where
  acceptor : AcceptorPc
  reactors : Nat → LiteReactorBase
  kernel : Kernel

/-- The steps of the process.  `accept` to `unlock` are `HandleAccept` and
`OnNewConn`. -/
inductive PoolEvent where
  | accept (connFd : Int)
  | lock
  | push
  | write (succeeds : Bool)
  | unlock
  | loop (i : Nat) (ev : LoopEvent)
  deriving DecidableEq, Repr

/-- A reactor is given another state. -/
def Pool.set (s : Pool) (i : Nat) (l : LiteReactorBase) : Pool :=
  { s with reactors := Function.update s.reactors i l }

@[simp] theorem Pool.set_self (s : Pool) (i : Nat) (l : LiteReactorBase) :
    (s.set i l).reactors i = l := Function.update_self _ _ _

theorem Pool.set_other (s : Pool) {i j : Nat} (hne : j ≠ i) (l : LiteReactorBase) :
    (s.set i l).reactors j = s.reactors j := Function.update_of_ne hne _ _

/-- What holds of the new state and of the other reactors holds of every reactor. -/
theorem Pool.set_forall {P : Nat → LiteReactorBase → Prop} {s : Pool} {i : Nat}
    {l : LiteReactorBase} (hself : P i l) (hother : ∀ j, j ≠ i → P j (s.reactors j)) (j : Nat) :
    P j ((s.set i l).reactors j) := by
  by_cases hj : j = i
  · subst hj
    rw [Pool.set_self]
    exact hself
  · rw [Pool.set_other s hj]
    exact hother j hj

@[simp] theorem Pool.set_acceptor (s : Pool) (i : Nat) (l : LiteReactorBase) :
    (s.set i l).acceptor = s.acceptor := rfl

@[simp] theorem Pool.set_kernel (s : Pool) (i : Nat) (l : LiteReactorBase) :
    (s.set i l).kernel = s.kernel := rfl

/-- `OnNewConn` locks the mutex of the reactor that serves `fd`. -/
def Pool.lockFor (cfg : PoolCfg) (s : Pool) (fd : Int) : Option Pool :=
  let i := cfg.HashGet fd
  if (s.reactors i).mutexConn = none then
    some { s.set i { s.reactors i with mutexConn := some .acceptor } with
      acceptor := .locked fd }
  else none

/-- `_queConnFd.push`. -/
def Pool.pushFor (cfg : PoolCfg) (s : Pool) (fd : Int) : Pool :=
  let i := cfg.HashGet fd
  let l := s.reactors i
  { s.set i { l with queConnFd := l.queConnFd ++ [fd], pushed := l.pushed ++ [fd] } with
    acceptor := .pushed fd }

/-- The write to the notify pipe. -/
def Pool.writeFor (cfg : PoolCfg) (s : Pool) (fd : Int) (succeeds : Bool) : Pool :=
  let i := cfg.HashGet fd
  let l := s.reactors i
  if succeeds then
    { s.set i { l with pipe := l.pipe + 1, edge := true } with acceptor := .wrote fd }
  else { s with acceptor := .wrote fd }

/-- The guard of `OnNewConn` gives the mutex back. -/
def Pool.unlockFor (cfg : PoolCfg) (s : Pool) (fd : Int) : Pool :=
  let i := cfg.HashGet fd
  { s.set i { s.reactors i with mutexConn := none } with acceptor := .idle }

/-- The state after a step. -/
def Pool.next (cfg : PoolCfg) (h : Host) (s : Pool) : PoolEvent → Option Pool
  | .accept connFd =>
      if s.acceptor = .idle then
        if connFd ≤ 0 then some s
        else
          some { s with
            acceptor := .accepted connFd
            kernel := { s.kernel with openFds := insert connFd s.kernel.openFds } }
      else none
  | .lock =>
      match s.acceptor with
      | .accepted fd => if fd ≤ 0 then some { s with acceptor := .idle } else s.lockFor cfg fd
      | _ => none
  | .push =>
      match s.acceptor with
      | .locked fd => some (s.pushFor cfg fd)
      | _ => none
  | .write succeeds =>
      match s.acceptor with
      | .pushed fd => some (s.writeFor cfg fd succeeds)
      | _ => none
  | .unlock =>
      match s.acceptor with
      | .wrote fd => some (s.unlockFor cfg fd)
      | _ => none
  | .loop i ev =>
      ((s.reactors i).next cfg h i ev).map fun r =>
        { s.set i r.1 with kernel := s.kernel.serve i r.2 }

/-- The answers the kernel can give to a reactor thread. -/
def Answers (cfg : PoolCfg) (s : Pool) (i : Nat) : LoopEvent → Prop
  | .wait events =>
      events.Nodup ∧ events.length ≤ MAXEVENTS ∧
        ∀ fd ∈ events, fd ∈ s.kernel.epoll i ∨ fd = cfg.connNotifyRecvFd i ∨
          fd = cfg.dataNotifyRecvFd i
  | .init _ block => block.length = MAXSOCKBUFF
  | .recv o =>
      ∀ fd e, (s.reactors i).pc = .reading fd →
        (s.reactors i).core.umapFdSockConn fd = some e → o.Fits e.conn.requested
  | .send o => ∃ t ∈ (s.reactors i).core.sending, o.Fits t.2.p.length
  | _ => True

/-- What the kernel can do: `accept` returns a descriptor that is not open, and
a write to a full pipe does not return. -/
def PoolEnabled (cfg : PoolCfg) (s : Pool) : PoolEvent → Prop
  | .accept connFd => connFd ∉ s.kernel.openFds
  | .write true =>
      ∀ fd k, s.acceptor = .pushed fd → cfg.capacity = some k →
        (s.reactors (cfg.HashGet fd)).pipe < k
  | .write false => cfg.writeMayFail = true
  | .loop i ev => i < cfg.iPoolSize ∧ Answers cfg s i ev
  | _ => True

/-- A reactor after `Init`. -/
structure LiteReactorBase.Fresh (l : LiteReactorBase) : Prop where
  core : l.core.Fresh
  queConnFd : l.queConnFd = []
  mutexConn : l.mutexConn = none
  pipe : l.pipe = 0
  edge : l.edge = false
  events : l.events = []
  pc : l.pc = .wait
  pushed : l.pushed = []
  popped : l.popped = []
  settled : l.settled = []

/-- A pool after `Init`: no client yet, and the notify pipes are open. -/
structure Pool.Fresh (cfg : PoolCfg) (s : Pool) : Prop where
  acceptor : s.acceptor = .idle
  reactors : ∀ i, (s.reactors i).Fresh
  epoll : ∀ i, s.kernel.epoll i = ∅
  connNotify : ∀ i, i < cfg.iPoolSize → cfg.connNotifyRecvFd i ∈ s.kernel.openFds
  dataNotify : ∀ i, i < cfg.iPoolSize → cfg.dataNotifyRecvFd i ∈ s.kernel.openFds

/-- The runs of a pool. -/
def pool (cfg : PoolCfg) (h : Host) : System Pool PoolEvent where
  init := Pool.Fresh cfg
  step s ev s' := PoolEnabled cfg s ev ∧ s.next cfg h ev = some s'

/-! ## What a step can do -/

/-- **All that one step of a reactor thread can do.** -/
inductive LoopStep (cfg : PoolCfg) (h : Host) (i : Nat) (l : LiteReactorBase) :
    LoopEvent → LiteReactorBase → Syscall → Prop where
  | wait (events : List Int) : l.pc = .wait →
      LoopStep cfg h i l (.wait events)
        { l with
          events := events
          edge := l.edge && decide (cfg.connNotifyRecvFd i ∉ events)
          pc := .dispatch } .none
  | handled : l.pc = .dispatch → l.events = [] →
      LoopStep cfg h i l .dispatch { l with pc := .wait } .none
  | notified (rest : List Int) : l.pc = .dispatch →
      l.events = cfg.connNotifyRecvFd i :: rest →
      LoopStep cfg h i l .dispatch { l with events := rest, pc := .lockWait } .none
  | ignored (fd : Int) (rest : List Int) : l.pc = .dispatch → l.events = fd :: rest →
      fd ≠ cfg.connNotifyRecvFd i → fd = cfg.dataNotifyRecvFd i →
      LoopStep cfg h i l .dispatch { l with events := rest } .none
  | readable (fd : Int) (rest : List Int) : l.pc = .dispatch → l.events = fd :: rest →
      fd ≠ cfg.connNotifyRecvFd i → fd ≠ cfg.dataNotifyRecvFd i →
      LoopStep cfg h i l .dispatch { l with events := rest, pc := .reading fd } .none
  | lock : l.pc = .lockWait → l.mutexConn = none →
      LoopStep cfg h i l .lock { l with mutexConn := some .reactor, pc := .draining } .none
  | drained : l.pc = .draining → l.queConnFd = [] →
      LoopStep cfg h i l .pop { l with mutexConn := none, pc := .dispatch } .none
  | skipped (fd : Int) (rest : List Int) : l.pc = .draining → l.queConnFd = fd :: rest →
      fd ≤ 0 →
      LoopStep cfg h i l .pop
        { l with
          queConnFd := rest
          popped := l.popped ++ [fd]
          settled := l.settled ++ [(fd, .dropped)] } .none
  | popped (fd : Int) (rest : List Int) : l.pc = .draining → l.queConnFd = fd :: rest →
      0 < fd →
      LoopStep cfg h i l .pop
        { l with queConnFd := rest, popped := l.popped ++ [fd], pc := .popped fd } .none
  | inited (fd : Int) (block : List UInt8) : l.pc = .popped fd →
      LoopStep cfg h i l (.init true block) { l with pc := .inited fd block } .none
  | nameless (fd : Int) (block : List UInt8) : l.pc = .popped fd →
      LoopStep cfg h i l (.init false block)
        { l with core := l.core.newConn fd false block, pc := .rejected fd } .none
  | registered (fd : Int) (block : List UInt8) : l.pc = .inited fd block →
      LoopStep cfg h i l .ctl { l with pc := .registered fd block } (.add fd)
  | inserted (fd : Int) (block : List UInt8) : l.pc = .registered fd block →
      LoopStep cfg h i l .insert
        { l with
          core := l.core.newConn fd true block
          settled := l.settled ++
            [(fd, if (l.core.umapFdSockConn fd).isNone then .inserted else .dropped)]
          pc := .draining } .none
  | unknown (fd : Int) (o : RecvOutcome) : l.pc = .reading fd →
      l.core.umapFdSockConn fd = none →
      LoopStep cfg h i l (.recv o) { l with pc := .orphan fd } .none
  | failed (fd : Int) (o : RecvOutcome) (e : Entry) (why : CloseReason) (e' : Entry) :
      l.pc = .reading fd → l.core.umapFdSockConn fd = some e →
      e.handleRead h l.core.buffers o = some (.close why e') →
      LoopStep cfg h i l (.recv o) { l with pc := .closing fd why e' } .none
  | served (fd : Int) (o : RecvOutcome) (e : Entry) (r : EntryResult) :
      l.pc = .reading fd → l.core.umapFdSockConn fd = some e →
      e.handleRead h l.core.buffers o = some r → r.Open →
      LoopStep cfg h i l (.recv o) (l.resume (l.core.conclude fd r)) .none
  | sent (o : SendOutcome) (fd : Int) (loop : SendLoop) : l.pc = .sending →
      l.core.sending = some (fd, loop) →
      LoopStep cfg h i l (.send o) (l.resume (l.core.sendTurn fd loop o)) .none
  | rejected (fd : Int) : l.pc = .rejected fd →
      LoopStep cfg h i l .close
        { l with settled := l.settled ++ [(fd, .closed)], pc := .draining } (.close fd)
  | orphaned (fd : Int) : l.pc = .orphan fd →
      LoopStep cfg h i l .close { l with pc := .dispatch } (.close fd)
  | closed (fd : Int) (why : CloseReason) (e : Entry) : l.pc = .closing fd why e →
      LoopStep cfg h i l .close { l with pc := .erasing fd why e } (.close fd)
  | erased (fd : Int) (why : CloseReason) (e : Entry) : l.pc = .erasing fd why e →
      LoopStep cfg h i l .erase
        { l with core := l.core.conclude fd (.close why e), pc := .dispatch } .none

theorem onDispatch_step (cfg : PoolCfg) (h : Host) (i : Nat) {l : LiteReactorBase}
    (hpc : l.pc = .dispatch) : LoopStep cfg h i l .dispatch (l.onDispatch cfg i) .none := by
  unfold LiteReactorBase.onDispatch
  split
  case h_1 hevents => exact .handled hpc hevents
  case h_2 fd rest hevents =>
      by_cases hconn : fd = cfg.connNotifyRecvFd i
      · rw [if_pos hconn]
        exact .notified rest hpc (hconn ▸ hevents)
      · rw [if_neg hconn]
        by_cases hdata : fd = cfg.dataNotifyRecvFd i
        · rw [if_pos hdata]
          exact .ignored fd rest hpc hevents hconn hdata
        · rw [if_neg hdata]
          exact .readable fd rest hpc hevents hconn hdata

theorem onPop_step (cfg : PoolCfg) (h : Host) (i : Nat) {l : LiteReactorBase}
    (hpc : l.pc = .draining) : LoopStep cfg h i l .pop l.onPop .none := by
  unfold LiteReactorBase.onPop
  split
  case h_1 hqueue => exact .drained hpc hqueue
  case h_2 fd rest hqueue =>
      by_cases hneg : fd ≤ 0
      · rw [if_pos hneg]
        exact .skipped fd rest hpc hqueue hneg
      · rw [if_neg hneg]
        exact .popped fd rest hpc hqueue (by omega)

theorem onRecv_step {cfg : PoolCfg} {h : Host} {i : Nat} {l l' : LiteReactorBase}
    {fd : Int} {o : RecvOutcome} (hpc : l.pc = .reading fd)
    (hrecv : l.onRecv h fd o = some l') : LoopStep cfg h i l (.recv o) l' .none := by
  unfold LiteReactorBase.onRecv at hrecv
  cases he : l.core.umapFdSockConn fd with
  | none =>
      rw [he, Option.some.injEq] at hrecv
      exact hrecv ▸ .unknown fd o hpc he
  | some e =>
      rw [he] at hrecv
      dsimp only at hrecv
      cases hread : e.handleRead h l.core.buffers o with
      | none =>
          rw [hread] at hrecv
          cases hrecv
      | some r =>
          rw [hread] at hrecv
          cases r with
          | close why e' =>
              rw [Option.some.injEq] at hrecv
              exact hrecv ▸ .failed fd o e why e' hpc he hread
          | keep e' =>
              rw [Option.some.injEq] at hrecv
              exact hrecv ▸ .served fd o e _ hpc he hread trivial
          | reply e' b ack =>
              rw [Option.some.injEq] at hrecv
              exact hrecv ▸ .served fd o e _ hpc he hread trivial

/-- A reactor thread neither pushes nor touches the pipe. -/
theorem LoopStep.pipe {cfg : PoolCfg} {h : Host} {i : Nat} {l l' : LiteReactorBase}
    {ev : LoopEvent} {sys : Syscall} (hst : LoopStep cfg h i l ev l' sys) :
    l'.pushed = l.pushed ∧ l'.pipe = l.pipe := by
  cases hst <;> exact ⟨rfl, rfl⟩

/-- **The step inversion.** -/
theorem LiteReactorBase.next_cases {cfg : PoolCfg} {h : Host} {i : Nat}
    {l l' : LiteReactorBase} {ev : LoopEvent} {sys : Syscall}
    (hnext : l.next cfg h i ev = some (l', sys)) : LoopStep cfg h i l ev l' sys := by
  cases ev with
  | wait events =>
      simp only [LiteReactorBase.next, Option.ite_none_right_eq_some, Option.some.injEq,
        Prod.mk.injEq] at hnext
      obtain ⟨hpc, rfl, rfl⟩ := hnext
      exact .wait events hpc
  | dispatch =>
      simp only [LiteReactorBase.next, Option.ite_none_right_eq_some, Option.some.injEq,
        Prod.mk.injEq] at hnext
      obtain ⟨hpc, rfl, rfl⟩ := hnext
      exact onDispatch_step cfg h i hpc
  | lock =>
      simp only [LiteReactorBase.next, Option.ite_none_right_eq_some, Option.some.injEq,
        Prod.mk.injEq] at hnext
      obtain ⟨⟨hpc, hmutex⟩, rfl, rfl⟩ := hnext
      exact .lock hpc hmutex
  | pop =>
      simp only [LiteReactorBase.next, Option.ite_none_right_eq_some, Option.some.injEq,
        Prod.mk.injEq] at hnext
      obtain ⟨hpc, rfl, rfl⟩ := hnext
      exact onPop_step cfg h i hpc
  | init peername block =>
      simp only [LiteReactorBase.next] at hnext
      cases hpc : l.pc <;> rw [hpc] at hnext <;> try cases hnext
      rename_i fd
      cases peername <;> (obtain ⟨rfl, rfl⟩ := hnext)
      · exact .nameless fd block hpc
      · exact .inited fd block hpc
  | ctl =>
      simp only [LiteReactorBase.next] at hnext
      cases hpc : l.pc <;> rw [hpc] at hnext <;> try cases hnext
      exact .registered _ _ hpc
  | insert =>
      simp only [LiteReactorBase.next] at hnext
      cases hpc : l.pc <;> rw [hpc] at hnext <;> try cases hnext
      exact .inserted _ _ hpc
  | recv o =>
      simp only [LiteReactorBase.next] at hnext
      cases hpc : l.pc <;> rw [hpc] at hnext <;> try cases hnext
      simp only [Option.map_eq_some_iff, Prod.mk.injEq] at hnext
      obtain ⟨l₁, hrecv, rfl, rfl⟩ := hnext
      exact onRecv_step hpc hrecv
  | send o =>
      simp only [LiteReactorBase.next, Option.ite_none_right_eq_some, Option.map_eq_some_iff,
        Prod.mk.injEq] at hnext
      obtain ⟨hpc, core, hcore, rfl, rfl⟩ := hnext
      simp only [Reactor.next] at hcore
      cases hsend : l.core.sending with
      | none =>
          rw [hsend] at hcore
          cases hcore
      | some loop =>
          rw [hsend, Option.some.injEq] at hcore
          exact hcore ▸ .sent o loop.1 loop.2 hpc hsend
  | close =>
      simp only [LiteReactorBase.next] at hnext
      cases hpc : l.pc <;> rw [hpc] at hnext <;> try cases hnext
      · exact .rejected _ hpc
      · exact .orphaned _ hpc
      · exact .closed _ _ _ hpc
  | erase =>
      simp only [LiteReactorBase.next] at hnext
      cases hpc : l.pc <;> rw [hpc] at hnext <;> try cases hnext
      exact .erased _ _ _ hpc

/-- **All that one step of the process can do.** -/
inductive PoolStep (cfg : PoolCfg) (h : Host) (s : Pool) : PoolEvent → Pool → Prop where
  | declined (connFd : Int) : connFd ≤ 0 → PoolStep cfg h s (.accept connFd) s
  | accept (connFd : Int) : s.acceptor = .idle → 0 < connFd →
      PoolStep cfg h s (.accept connFd)
        { s with
          acceptor := .accepted connFd
          kernel := { s.kernel with openFds := insert connFd s.kernel.openFds } }
  | refused (fd : Int) : s.acceptor = .accepted fd → fd ≤ 0 →
      PoolStep cfg h s .lock { s with acceptor := .idle }
  | lock (fd : Int) : s.acceptor = .accepted fd → 0 < fd →
      (s.reactors (cfg.HashGet fd)).mutexConn = none →
      PoolStep cfg h s .lock
        { s.set (cfg.HashGet fd)
            { s.reactors (cfg.HashGet fd) with mutexConn := some .acceptor } with
          acceptor := .locked fd }
  | push (fd : Int) : s.acceptor = .locked fd → PoolStep cfg h s .push (s.pushFor cfg fd)
  | write (fd : Int) (succeeds : Bool) : s.acceptor = .pushed fd →
      PoolStep cfg h s (.write succeeds) (s.writeFor cfg fd succeeds)
  | unlock (fd : Int) : s.acceptor = .wrote fd →
      PoolStep cfg h s .unlock (s.unlockFor cfg fd)
  | loop (i : Nat) (ev : LoopEvent) (l' : LiteReactorBase) (sys : Syscall) :
      LoopStep cfg h i (s.reactors i) ev l' sys →
      PoolStep cfg h s (.loop i ev) { s.set i l' with kernel := s.kernel.serve i sys }

/-- **The step inversion of the process.** -/
theorem Pool.next_cases {cfg : PoolCfg} {h : Host} {s s' : Pool} {ev : PoolEvent}
    (hnext : s.next cfg h ev = some s') : PoolStep cfg h s ev s' := by
  cases ev with
  | accept fd =>
      simp only [Pool.next, Option.ite_none_right_eq_some] at hnext
      obtain ⟨hidle, hnext⟩ := hnext
      by_cases hneg : fd ≤ 0
      · rw [if_pos hneg, Option.some.injEq] at hnext
        exact hnext ▸ .declined fd hneg
      · rw [if_neg hneg, Option.some.injEq] at hnext
        exact hnext ▸ .accept fd hidle (by omega)
  | lock =>
      simp only [Pool.next] at hnext
      cases hpc : s.acceptor <;> rw [hpc] at hnext <;> try cases hnext
      rename_i fd
      dsimp only at hnext
      by_cases hneg : fd ≤ 0
      · rw [if_pos hneg, Option.some.injEq] at hnext
        exact hnext ▸ .refused fd hpc hneg
      · rw [if_neg hneg] at hnext
        simp only [Pool.lockFor, Option.ite_none_right_eq_some, Option.some.injEq] at hnext
        exact hnext.2 ▸ .lock fd hpc (by omega) hnext.1
  | push =>
      simp only [Pool.next] at hnext
      cases hpc : s.acceptor <;> rw [hpc] at hnext <;> try cases hnext
      exact .push _ hpc
  | write succeeds =>
      simp only [Pool.next] at hnext
      cases hpc : s.acceptor <;> rw [hpc] at hnext <;> try cases hnext
      exact .write _ succeeds hpc
  | unlock =>
      simp only [Pool.next] at hnext
      cases hpc : s.acceptor <;> rw [hpc] at hnext <;> try cases hnext
      exact .unlock _ hpc
  | loop i ev =>
      simp only [Pool.next, Option.map_eq_some_iff] at hnext
      obtain ⟨⟨l', sys⟩, hloop, rfl⟩ := hnext
      exact .loop i ev l' sys (LiteReactorBase.next_cases hloop)

/-! ## The connections of a thread -/

/-- The connections of a reactor thread are in a reachable state of the reactor
of `Ports.Reactor`, and what the thread is about to do to them is enabled there. -/
structure Tracked (h : Host) (l : LiteReactorBase) : Prop where
  reachable : (reactor h).Reachable l.core
  quiet : l.pc ≠ .sending → l.core.sending = none
  block : ∀ fd block, l.pc = .inited fd block ∨ l.pc = .registered fd block →
    block.length = MAXSOCKBUFF
  doomed : ∀ fd why e', l.pc = .closing fd why e' ∨ l.pc = .erasing fd why e' →
    ∃ e o, l.core.umapFdSockConn fd = some e ∧ o.Fits e.conn.requested ∧
      e.handleRead h l.core.buffers o = some (.close why e')

section Tracking

variable {cfg : PoolCfg} {h : Host} {i : Nat} {l l' : LiteReactorBase}

/-- The points at which nothing is pending. -/
def Pc.AtRest : Pc → Prop
  | .inited _ _ | .registered _ _ | .closing _ _ _ | .erasing _ _ _ | .sending => False
  | _ => True

theorem Tracked.at_rest (hreach : (reactor h).Reachable l.core)
    (hquiet : l.core.sending = none) (hrest : l.pc.AtRest) : Tracked h l where
  reachable := hreach
  quiet := fun _ => hquiet
  block := fun fd block hpc => by
    rcases hpc with hpc | hpc <;> (rw [hpc] at hrest; exact hrest.elim)
  doomed := fun fd why e hpc => by
    rcases hpc with hpc | hpc <;> (rw [hpc] at hrest; exact hrest.elim)

/-- After a reading event that does not close. -/
theorem Tracked.resume {core : Reactor} (hreach : (reactor h).Reachable core) :
    Tracked h (l.resume core) := by
  unfold LiteReactorBase.resume
  cases hsend : core.sending with
  | none =>
      exact .at_rest hreach hsend trivial
  | some loop =>
      exact
        { reachable := hreach
          quiet := fun hpc => absurd rfl hpc
          block := fun _ _ hpc => by rcases hpc with hpc | hpc <;> cases hpc
          doomed := fun _ _ _ hpc => by rcases hpc with hpc | hpc <;> cases hpc }

/-- Reading what fits the request is a step of the reactor. -/
theorem reactor_read {w : Reactor} {fd : Int} {o : RecvOutcome} {e : Entry} {r : EntryResult}
    (hidle : w.sending = none) (hkey : w.umapFdSockConn fd = some e)
    (hfit : o.Fits e.conn.requested) (hread : e.handleRead h w.buffers o = some r) :
    (reactor h).step w (.read fd o) (w.conclude fd r) := by
  refine ⟨⟨hidle, ?_⟩, ?_⟩
  · intro e₁ he₁
    rw [Option.mem_def, hkey, Option.some.injEq] at he₁
    exact he₁ ▸ hfit
  · simp only [Reactor.next, hkey, hread, Option.map_some]

/-- **One step of the thread** is a step of its reactor, or none. -/
theorem LoopStep.tracked {ev : LoopEvent} {sys : Syscall}
    (hst : LoopStep cfg h i l ev l' sys) (hl : Tracked h l)
    (hinit : ∀ peername block, ev = .init peername block → block.length = MAXSOCKBUFF)
    (hrecv : ∀ o fd e, ev = .recv o → l.pc = .reading fd →
      l.core.umapFdSockConn fd = some e → o.Fits e.conn.requested)
    (hsend : ∀ o, ev = .send o → ∃ t ∈ l.core.sending, o.Fits t.2.p.length) :
    Tracked h l' := by
  have hquiet : ∀ {pc}, l.pc = pc → pc ≠ .sending → l.core.sending = none := by
    rintro pc rfl hne
    exact hl.quiet hne
  cases hst with
  | wait events hpc =>
      exact .at_rest hl.reachable (hquiet hpc Pc.noConfusion) trivial
  | handled hpc =>
      exact .at_rest hl.reachable (hquiet hpc Pc.noConfusion) trivial
  | notified rest hpc =>
      exact .at_rest hl.reachable (hquiet hpc Pc.noConfusion) trivial
  | ignored fd rest hpc => exact ⟨hl.reachable, hl.quiet, hl.block, hl.doomed⟩
  | readable fd rest hpc =>
      exact .at_rest hl.reachable (hquiet hpc Pc.noConfusion) trivial
  | lock hpc =>
      exact .at_rest hl.reachable (hquiet hpc Pc.noConfusion) trivial
  | drained hpc =>
      exact .at_rest hl.reachable (hquiet hpc Pc.noConfusion) trivial
  | skipped fd rest hpc => exact ⟨hl.reachable, hl.quiet, hl.block, hl.doomed⟩
  | popped fd rest hpc =>
      exact .at_rest hl.reachable (hquiet hpc Pc.noConfusion) trivial
  | inited fd block hpc =>
      refine ⟨hl.reachable, fun _ => hquiet hpc Pc.noConfusion, ?_, ?_⟩
      · rintro fd' block' (heq | heq)
        · cases heq
          exact hinit true block rfl
        · cases heq
      · rintro fd' why e (heq | heq) <;> cases heq
  | nameless fd block hpc =>
      have hidle := hquiet hpc Pc.noConfusion
      have hstep : (reactor h).step l.core (.newConn fd false block)
          (l.core.newConn fd false block) := ⟨⟨hidle, hinit false block rfl⟩, rfl⟩
      refine .at_rest (hl.reachable.step hstep) ?_ trivial
      exact (newConn_sending l.core fd false block).trans hidle
  | registered fd block hpc =>
      refine ⟨hl.reachable, fun _ => hquiet hpc Pc.noConfusion, ?_, ?_⟩
      · rintro fd' block' (heq | heq)
        · cases heq
        · cases heq
          exact hl.block fd block (Or.inl hpc)
      · rintro fd' why e (heq | heq) <;> cases heq
  | inserted fd block hpc =>
      have hidle := hquiet hpc Pc.noConfusion
      have hstep : (reactor h).step l.core (.newConn fd true block)
          (l.core.newConn fd true block) := ⟨⟨hidle, hl.block fd block (Or.inr hpc)⟩, rfl⟩
      refine .at_rest (hl.reachable.step hstep) ?_ trivial
      exact (newConn_sending l.core fd true block).trans hidle
  | unknown fd o hpc =>
      exact .at_rest hl.reachable (hquiet hpc Pc.noConfusion) trivial
  | failed fd o e why e' hpc hkey hread =>
      refine ⟨hl.reachable, fun _ => hquiet hpc Pc.noConfusion, ?_, ?_⟩
      · rintro fd' block (heq | heq) <;> cases heq
      · rintro fd' why' e₁ (heq | heq)
        · cases heq
          exact ⟨e, o, hkey, hrecv o fd e rfl hpc hkey, hread⟩
        · cases heq
  | served fd o e r hpc hkey hread hopen =>
      have hidle := hquiet hpc Pc.noConfusion
      have hfit := hrecv o fd e rfl hpc hkey
      exact .resume (hl.reachable.step (reactor_read hidle hkey hfit hread))
  | sent o fd loop hpc hloop =>
      have hstep : (reactor h).step l.core (.send o) (l.core.sendTurn fd loop o) := by
        refine ⟨hsend o rfl, ?_⟩
        simp only [Reactor.next, hloop]
      exact .resume (hl.reachable.step hstep)
  | rejected fd hpc =>
      exact .at_rest hl.reachable (hquiet hpc Pc.noConfusion) trivial
  | orphaned fd hpc =>
      exact .at_rest hl.reachable (hquiet hpc Pc.noConfusion) trivial
  | closed fd why e hpc =>
      refine ⟨hl.reachable, fun _ => hquiet hpc Pc.noConfusion, ?_, ?_⟩
      · rintro fd' block (heq | heq) <;> cases heq
      · rintro fd' why' e₁ (heq | heq)
        · cases heq
        · cases heq
          exact hl.doomed fd why e (Or.inl hpc)
  | erased fd why e hpc =>
      obtain ⟨e₀, o, hkey, hfit, hread⟩ := hl.doomed fd why e (Or.inr hpc)
      have hidle := hquiet hpc Pc.noConfusion
      have hstep := reactor_read hidle hkey hfit hread
      exact .at_rest (hl.reachable.step hstep) hidle trivial

theorem Tracked.fresh (hl : l.Fresh) : Tracked h l :=
  .at_rest (.init hl.core) hl.core.sending (by rw [hl.pc]; trivial)

/-- The accepting thread touches no connection. -/
theorem Tracked.unrelated (hl : Tracked h l) (hcore : l'.core = l.core) (hpc : l'.pc = l.pc) :
    Tracked h l' where
  reachable := hcore ▸ hl.reachable
  quiet := fun hne => hcore ▸ hl.quiet (hpc ▸ hne)
  block := fun fd block hblock => hl.block fd block (hpc ▸ hblock)
  doomed := by
    rw [hcore, hpc]
    exact hl.doomed

/-- A reactor of the process gets another state. -/
theorem tracked_set {s : Pool} (hs : ∀ j, Tracked h (s.reactors j))
    (hl' : Tracked h l') (j : Nat) : Tracked h ((s.set i l').reactors j) :=
  Pool.set_forall (P := fun _ l => Tracked h l) hl' (fun j _ => hs j) j

/-- **The pool refines its reactors**: in every reachable state of the process
the connections of every thread are in a reachable state of the reactor. -/
theorem core_reachable {s : Pool} (hs : (pool cfg h).Reachable s) (i : Nat) :
    (reactor h).Reachable (s.reactors i).core := by
  have htracked : ∀ j, Tracked h (s.reactors j) := by
    refine @System.invariant_of_step _ _ (pool cfg h)
      (fun s => ∀ j, Tracked h (s.reactors j)) ?_ ?_ s hs
    · exact fun s hfresh j => .fresh (hfresh.reactors j)
    · rintro s ev s' - hs ⟨henabled, hnext⟩
      cases Pool.next_cases hnext with
      | declined fd => exact hs
      | accept fd => exact hs
      | refused fd => exact hs
      | lock fd => exact tracked_set hs ((hs _).unrelated rfl rfl)
      | push fd => exact tracked_set hs ((hs _).unrelated rfl rfl)
      | write fd succeeds =>
          cases succeeds with
          | true => exact tracked_set hs ((hs _).unrelated rfl rfl)
          | false => exact hs
      | unlock fd => exact tracked_set hs ((hs _).unrelated rfl rfl)
      | loop i ev l' sys hloop =>
          apply tracked_set hs
          apply hloop.tracked (hs i)
          · rintro peername block rfl
            exact henabled.2
          · rintro o fd e rfl
            exact henabled.2 fd e
          · rintro o rfl
            exact henabled.2
  exact (htracked i).reachable

end Tracking

/-! ## A pool of one reactor -/

/-- One reactor, with the notify pipes on descriptors 3 and 4. -/
def PoolCfg.single (capacity : Option Nat) : PoolCfg where
  iPoolSize := 1
  size_pos := by decide
  size_le := by decide
  connNotifyRecvFd := fun _ => 3
  dataNotifyRecvFd := fun _ => 4
  capacity := capacity
  writeMayFail := false

/-- A reactor after `Init`. -/
def LiteReactorBase.boot : LiteReactorBase :=
  ⟨Reactor.boot, [], none, 0, false, [], .wait, [], [], []⟩

/-- The process after `Init`. -/
def Pool.boot : Pool := ⟨.idle, fun _ => .boot, ⟨{3, 4}, fun _ => ∅⟩⟩

theorem Pool.boot_fresh (capacity : Option Nat) :
    Pool.boot.Fresh (PoolCfg.single capacity) where
  acceptor := rfl
  reactors := fun _ => ⟨Reactor.boot_fresh, rfl, rfl, rfl, rfl, rfl, rfl, rfl, rfl, rfl⟩
  epoll := fun _ => rfl
  connNotify := fun _ _ => Finset.mem_insert_self 3 _
  dataNotify := fun _ _ => Finset.mem_insert_of_mem (Finset.mem_singleton_self 4)

section Serving

variable {cfg : PoolCfg} {h : Host} {s : Pool} {fd : Int}

/-- `accept` and the first half of `OnNewConn`, on a reactor whose mutex is free. -/
theorem accept_and_push (hs : (pool cfg h).Reachable s) (hidle : s.acceptor = .idle)
    (hpos : 0 < fd) (hnew : fd ∉ s.kernel.openFds)
    (hmutex : (s.reactors (cfg.HashGet fd)).mutexConn = none) :
    ∃ s', (pool cfg h).Reachable s' ∧ s'.acceptor = .pushed fd ∧
      s'.kernel.openFds = insert fd s.kernel.openFds ∧
      s'.reactors (cfg.HashGet fd) =
        { s.reactors (cfg.HashGet fd) with
          mutexConn := some .acceptor
          queConnFd := (s.reactors (cfg.HashGet fd)).queConnFd ++ [fd]
          pushed := (s.reactors (cfg.HashGet fd)).pushed ++ [fd] } := by
  have haccept : s.next cfg h (.accept fd) = some { s with
      acceptor := .accepted fd
      kernel := { s.kernel with openFds := insert fd s.kernel.openFds } } := by
    simp only [Pool.next]
    rw [if_pos hidle, if_neg (by omega)]
  have h₁ := hs.step (show (pool cfg h).step _ (.accept fd) _ from ⟨hnew, haccept⟩)
  have hlock : Pool.next cfg h { s with
      acceptor := .accepted fd
      kernel := { s.kernel with openFds := insert fd s.kernel.openFds } } .lock =
      Pool.lockFor cfg { s with
        acceptor := .accepted fd
        kernel := { s.kernel with openFds := insert fd s.kernel.openFds } } fd := by
    simp only [Pool.next]
    rw [if_neg (by omega)]
  rw [Pool.lockFor, if_pos hmutex] at hlock
  have h₂ := h₁.step (show (pool cfg h).step _ .lock _ from ⟨trivial, hlock⟩)
  have h₃ := h₂.step (show (pool cfg h).step _ .push _ from ⟨trivial, rfl⟩)
  refine ⟨_, h₃, rfl, rfl, ?_⟩
  show Function.update _ _ _ _ = _
  rw [Function.update_self]
  simp only [Pool.set_self]

/-- The second half of `OnNewConn`, when the notify pipe has room. -/
theorem write_and_unlock (hs : (pool cfg h).Reachable s) (hpushed : s.acceptor = .pushed fd)
    (hroom : ∀ k, cfg.capacity = some k → (s.reactors (cfg.HashGet fd)).pipe < k) :
    ∃ s', (pool cfg h).Reachable s' ∧ s'.acceptor = .idle ∧
      s'.kernel = s.kernel ∧
      s'.reactors (cfg.HashGet fd) =
        { s.reactors (cfg.HashGet fd) with
          mutexConn := none
          pipe := (s.reactors (cfg.HashGet fd)).pipe + 1
          edge := true } := by
  have henabled : PoolEnabled cfg s (.write true) := by
    intro fd' k hpushed' hk
    rw [hpushed, AcceptorPc.pushed.injEq] at hpushed'
    exact hpushed' ▸ hroom k hk
  have hwrite : s.next cfg h (.write true) = some (s.writeFor cfg fd true) := by
    simp only [Pool.next, hpushed]
  have h₁ := hs.step (show (pool cfg h).step _ (.write true) _ from ⟨henabled, hwrite⟩)
  have h₂ := h₁.step (show (pool cfg h).step _ .unlock _ from ⟨trivial, rfl⟩)
  refine ⟨_, h₂, rfl, rfl, ?_⟩
  show Function.update _ _ _ _ = _
  rw [Function.update_self]
  simp only [Pool.writeFor, if_true, Pool.set_self]

/-- A step of a reactor thread that the kernel allows. -/
theorem loop_step (hs : (pool cfg h).Reachable s) {i : Nat} (hi : i < cfg.iPoolSize)
    {ev : LoopEvent} (hans : Answers cfg s i ev) {l l' : LiteReactorBase} {sys : Syscall}
    (hl : s.reactors i = l) (hnext : l.next cfg h i ev = some (l', sys)) :
    ∃ s', (pool cfg h).Reachable s' ∧ s'.reactors i = l' ∧ s'.acceptor = s.acceptor ∧
      s'.kernel = s.kernel.serve i sys := by
  have hpool : s.next cfg h (.loop i ev) =
      some { s.set i l' with kernel := s.kernel.serve i sys } := by
    simp only [Pool.next, hl, hnext, Option.map_some]
  exact ⟨_, hs.step (show (pool cfg h).step _ (.loop i ev) _ from ⟨⟨hi, hans⟩, hpool⟩),
    Pool.set_self s i l', rfl, rfl⟩

theorem loop_reachable (hs : (pool cfg h).Reachable s) {i : Nat} (hi : i < cfg.iPoolSize)
    {ev : LoopEvent} (hans : Answers cfg s i ev) {l l' : LiteReactorBase} {sys : Syscall}
    (hl : s.reactors i = l) (hnext : l.next cfg h i ev = some (l', sys)) :
    ∃ s', (pool cfg h).Reachable s' ∧ s'.reactors i = l' := by
  obtain ⟨s', hs', hl', -, -⟩ := loop_step hs hi hans hl hnext
  exact ⟨s', hs', hl'⟩

end Serving

theorem single_HashGet (capacity : Option Nat) (fd : Int) :
    (PoolCfg.single capacity).HashGet fd = 0 := by
  have hlt := (PoolCfg.single capacity).HashGet_lt fd
  exact Nat.lt_one_iff.mp hlt

/-- There is always a descriptor that is not open. -/
theorem exists_new_fd (openFds : Finset Int) : ∃ fd : Int, 0 < fd ∧ fd ∉ openFds := by
  obtain ⟨n, hn⟩ := openFds.finite_toSet.bddAbove
  refine ⟨max n 0 + 1, by omega, ?_⟩
  intro hmem
  have hle := hn hmem
  omega

/-- A reactor that waits with nothing left over. -/
def LiteReactorBase.waiting (core : Reactor) (pipe : Nat) (edge : Bool)
    (pushed popped : List Int) (settled : List (Int × Settled)) : LiteReactorBase :=
  ⟨core, [], none, pipe, edge, [], .wait, pushed, popped, settled⟩

section OneClient

variable {h : Host} {s : Pool} {block : List UInt8} {core : Reactor} {pipe : Nat} {edge : Bool}
  {pushed popped : List Int} {settled : List (Int × Settled)}

/-- A reactor that waits takes descriptor 5 in as far as `epoll_ctl`. -/
theorem waiting_registers (hs : (pool (.single none) h).Reachable s)
    (hidle : s.acceptor = .idle) (hnew : (5 : Int) ∉ s.kernel.openFds)
    (hblock : block.length = MAXSOCKBUFF)
    (hl : s.reactors 0 = .waiting core pipe edge pushed popped settled) :
    ∃ s', (pool (.single none) h).Reachable s' ∧ s'.acceptor = .idle ∧
      (5 : Int) ∈ s'.kernel.epoll 0 ∧
      s'.reactors 0 = ⟨core, [], some .reactor, pipe + 1, false, [], .registered 5 block,
        pushed ++ [5], popped ++ [5], settled⟩ := by
  have hone : 0 < (PoolCfg.single none).iPoolSize := Nat.one_pos
  have hhash : (PoolCfg.single none).HashGet 5 = 0 := single_HashGet none 5
  obtain ⟨s₁, hs₁, hpushed, -, hl₁⟩ := accept_and_push hs hidle (by decide) hnew
    (by rw [hhash, hl]; rfl)
  obtain ⟨s₂, hs₂, hidle₂, -, hl₂⟩ := write_and_unlock hs₁ hpushed (fun k hk => by cases hk)
  rw [hl₁, hhash, hl] at hl₂
  have hwait : Answers (.single none) s₂ 0 (.wait [3]) := by
    refine ⟨List.nodup_singleton 3, by decide, ?_⟩
    intro fd hfd
    exact Or.inr (Or.inl (List.mem_singleton.mp hfd))
  obtain ⟨s₃, hs₃, hl₃, hidle₃, -⟩ := loop_step hs₂ hone hwait hl₂ rfl
  obtain ⟨s₄, hs₄, hl₄, hidle₄, -⟩ :=
    @loop_step _ _ _ hs₃ 0 hone .dispatch trivial _ _ _ hl₃ rfl
  obtain ⟨s₅, hs₅, hl₅, hidle₅, -⟩ := @loop_step _ _ _ hs₄ 0 hone .lock trivial _ _ _ hl₄ rfl
  obtain ⟨s₆, hs₆, hl₆, hidle₆, -⟩ := @loop_step _ _ _ hs₅ 0 hone .pop trivial _ _ _ hl₅ rfl
  obtain ⟨s₇, hs₇, hl₇, hidle₇, -⟩ := @loop_step _ _ _ hs₆ 0 hone (.init true block) hblock
    _ _ _ hl₆ rfl
  obtain ⟨s₈, hs₈, hl₈, hidle₈, hkernel⟩ :=
    @loop_step _ _ _ hs₇ 0 hone .ctl trivial _ _ _ hl₇ rfl
  refine ⟨s₈, hs₈, ?_, ?_, hl₈⟩
  · rw [hidle₈, hidle₇, hidle₆, hidle₅, hidle₄, hidle₃, hidle₂]
  · rw [hkernel]
    show (5 : Int) ∈ Function.update s₇.kernel.epoll 0 _ 0
    rw [Function.update_self]
    exact Finset.mem_insert_self 5 _

/-- With the descriptor in its map it waits again. -/
theorem registered_waits (hs : (pool (.single none) h).Reachable s)
    (hl : s.reactors 0 = ⟨core, [], some .reactor, pipe, edge, [], .registered 5 block,
      pushed, popped, settled⟩) :
    ∃ s' settled', (pool (.single none) h).Reachable s' ∧ s'.acceptor = s.acceptor ∧
      s'.kernel = s.kernel ∧
      s'.reactors 0 = .waiting (core.newConn 5 true block) pipe edge pushed popped settled' := by
  have hone : 0 < (PoolCfg.single none).iPoolSize := Nat.one_pos
  obtain ⟨s₁, hs₁, hl₁, hidle₁, hkernel₁⟩ :=
    @loop_step _ _ _ hs 0 hone .insert trivial _ _ _ hl rfl
  obtain ⟨s₂, hs₂, hl₂, hidle₂, hkernel₂⟩ :=
    @loop_step _ _ _ hs₁ 0 hone .pop trivial _ _ _ hl₁ rfl
  obtain ⟨s₃, hs₃, hl₃, hidle₃, hkernel₃⟩ :=
    @loop_step _ _ _ hs₂ 0 hone .dispatch trivial _ _ _ hl₂ rfl
  refine ⟨s₃, _, hs₃, ?_, ?_, hl₃⟩
  · rw [hidle₃, hidle₂, hidle₁]
  · rw [hkernel₃, hkernel₂, hkernel₁]
    rfl

/-- The peer of descriptor 5 closes its end: the reactor closes and erases it, and
waits. -/
theorem waiting_closes {e : Entry} (hs : (pool (.single none) h).Reachable s)
    (hkey : core.umapFdSockConn 5 = some e) (hepoll : (5 : Int) ∈ s.kernel.epoll 0)
    (hl : s.reactors 0 = .waiting core pipe edge pushed popped settled) :
    ∃ s' edge' e', (pool (.single none) h).Reachable s' ∧ s'.acceptor = s.acceptor ∧
      (5 : Int) ∉ s'.kernel.openFds ∧
      s'.reactors 0 = .waiting (core.conclude 5 (.close .peerClosed e')) pipe edge' pushed
        popped settled := by
  have hone : 0 < (PoolCfg.single none).iPoolSize := Nat.one_pos
  have hwait : Answers (.single none) s 0 (.wait [5]) := by
    refine ⟨List.nodup_singleton 5, by decide, ?_⟩
    intro fd hfd
    exact Or.inl (List.mem_singleton.mp hfd ▸ hepoll)
  obtain ⟨s₁, hs₁, hl₁, hidle₁, -⟩ := loop_step hs hone hwait hl rfl
  obtain ⟨s₂, hs₂, hl₂, hidle₂, -⟩ :=
    @loop_step _ _ _ hs₁ 0 hone .dispatch trivial _ _ _ hl₁ rfl
  obtain ⟨l, hdispatched⟩ : ∃ l, l = s₂.reactors 0 := ⟨_, rfl⟩
  have hpc : l.pc = .reading 5 := by
    rw [hdispatched, hl₂]
    rfl
  have hcore : l.core = core := by
    rw [hdispatched, hl₂]
    rfl
  have hread : e.handleRead h l.core.buffers .eof =
      some (.close .peerClosed ⟨e.conn, e.hist.receive .eof⟩) := by
    rw [Entry.handleRead, HandleRead_eof, Option.map_some]
  have hrecv : l.next (.single none) h 0 (.recv .eof) =
      some ({ l with pc := .closing 5 .peerClosed ⟨e.conn, e.hist.receive .eof⟩ }, .none) := by
    simp only [LiteReactorBase.next, hpc, LiteReactorBase.onRecv, hcore, hkey]
    rw [hcore] at hread
    rw [hread]
    rfl
  have heof : Answers (.single none) s₂ 0 (.recv .eof) := fun _ _ _ _ => trivial
  obtain ⟨s₃, hs₃, hl₃, hidle₃, -⟩ := loop_step hs₂ hone heof hdispatched.symm hrecv
  obtain ⟨s₄, hs₄, hl₄, hidle₄, hkernel₄⟩ :=
    @loop_step _ _ _ hs₃ 0 hone .close trivial _ _ _ hl₃ rfl
  obtain ⟨s₅, hs₅, hl₅, hidle₅, hkernel₅⟩ :=
    @loop_step _ _ _ hs₄ 0 hone .erase trivial _ _ _ hl₄ rfl
  have hrest : s₅.reactors 0 =
      { LiteReactorBase.waiting (core.conclude 5
          (.close .peerClosed ⟨e.conn, e.hist.receive .eof⟩)) pipe (edge && true) pushed popped
          settled with pc := .dispatch } := by
    rw [hl₅, hdispatched, hl₂]
    rfl
  obtain ⟨s₆, hs₆, hl₆, hidle₆, hkernel₆⟩ :=
    @loop_step _ _ _ hs₅ 0 hone .dispatch trivial _ _ _ hrest rfl
  refine ⟨s₆, _, _, hs₆, ?_, ?_, hl₆⟩
  · rw [hidle₆, hidle₅, hidle₄, hidle₃, hidle₂, hidle₁]
  · rw [hkernel₆, hkernel₅, hkernel₄]
    exact Finset.notMem_erase 5 _

end OneClient

/-- A reactor that has taken descriptor 5 in and waits. -/
theorem boot_takes_in (h : Host) {block : List UInt8} (hblock : block.length = MAXSOCKBUFF) :
    ∃ s settled, (pool (.single none) h).Reachable s ∧ s.acceptor = .idle ∧
      (5 : Int) ∈ s.kernel.epoll 0 ∧
      s.reactors 0 = .waiting (Reactor.boot.newConn 5 true block) 1 false [5] [5] settled := by
  obtain ⟨s₁, hs₁, hidle₁, hepoll₁, hl₁⟩ :=
    waiting_registers (.init (Pool.boot_fresh none)) rfl (by decide) hblock
      (show Pool.boot.reactors 0 = .waiting .boot 0 false [] [] [] from rfl)
  obtain ⟨s₂, settled, hs₂, hidle₂, hkernel₂, hl₂⟩ := registered_waits hs₁ hl₁
  exact ⟨s₂, settled, hs₂, hidle₂.trans hidle₁, hkernel₂ ▸ hepoll₁, hl₂⟩

/-- The peer has closed its end, and the number of the descriptor is that of the next
connection. -/
theorem boot_takes_again (h : Host) {block : List UInt8} (hblock : block.length = MAXSOCKBUFF) :
    ∃ s, (pool (.single none) h).Reachable s ∧ (s.reactors 0).pc = .registered 5 block ∧
      (s.reactors 0).popped = [5, 5] ∧ (s.reactors 0).core.connSeq = 1 := by
  obtain ⟨s₁, settled, hs₁, hidle₁, hepoll₁, hl₁⟩ := boot_takes_in h hblock
  have hkey : (Reactor.boot.newConn 5 true block).umapFdSockConn 5 =
      some ⟨SockConn.Init 5 1 block, .empty⟩ := rfl
  obtain ⟨s₂, edge, e, hs₂, hidle₂, hclosed, hl₂⟩ := waiting_closes hs₁ hkey hepoll₁ hl₁
  obtain ⟨s₃, hs₃, -, -, hl₃⟩ :=
    waiting_registers hs₂ (hidle₂.trans hidle₁) hclosed hblock hl₂
  refine ⟨s₃, hs₃, ?_, ?_, ?_⟩ <;> rw [hl₃]
  · rfl
  · rfl

end MyGenSvr.Ports
