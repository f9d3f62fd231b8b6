import MyGenSvr.Ports.MainLoop

/-!
# Startup

From the pool to the first test of `g_bIsStop`: `LiteReactorPool::Init` makes its
reactors one after another, each with an epoll instance, two notify pipes and a thread;
`MainLoop` then makes its own epoll instance and `Listen` the listening socket.  A step is
one system call, with what the kernel answers.  Every call that fails ends the process,
but for `epoll_ctl`, whose result nobody reads.

Clients connect from `listen` on, the signals that stop the process arrive at any time.
The threads started meanwhile find nothing to do: nobody writes to a notify pipe yet.

## Main results

* `Startup.next_cases` — all that one step of the startup can do.
* `startup_builds_pool` — what has been built when the main loop is entered.
* `process_serves` — every state of the process past its startup is one of the server of
  `Ports.MainLoop`.
-/

namespace MyGenSvr.Ports

open MyGenSvr.Verified.Transition

/-- The members of a reactor that `Init` sets. -/
structure ReactorFds where
  ObjNO : Int
  epFd : Int
  connNotifyRecvFd : Int
  connNotifySendFd : Int
  dataNotifyRecvFd : Int
  dataNotifySendFd : Int
  deriving DecidableEq, Repr

/-- `Init` of a new reactor, up to its first system call. -/
def ReactorFds.numbered (iObjNO : Int) : ReactorFds := ⟨iObjNO, 0, 0, 0, 0, 0⟩

/-- The descriptors of a reactor, in the order they are opened. -/
def ReactorFds.descriptors (l : ReactorFds) : List Int :=
  [l.epFd, l.connNotifyRecvFd, l.connNotifySendFd, l.dataNotifyRecvFd, l.dataNotifySendFd]

/-- Where the main thread stands: before a system call of `LiteReactorBase::Init`, of
`MainLoop`, `Listen` or `open_tcp_port_nblk`, at the loop of `MainLoop`, or gone. -/
inductive StartPc where
  | epollCreate (l : ReactorFds)
  | pipeConn (l : ReactorFds)
  | pipeData (l : ReactorFds)
  | ctlConn (l : ReactorFds)
  | ctlData (l : ReactorFds)
  | thread (l : ReactorFds)
  | epollCreateMain
  | socket (epollFd : Int)
  | bind (epollFd lsfd : Int)
  | listen (epollFd lsfd : Int)
  | getfl (epollFd lsfd : Int)
  | setfl (epollFd lsfd : Int)
  | ctlListen (epollFd lsfd : Int)
  | loop (epollFd lsfd : Int)
  | exited (status : Int)
  deriving DecidableEq, Repr

/-- The descriptors of what is under construction. -/
def StartPc.descriptors : StartPc → List Int
  | .pipeConn l => [l.epFd]
  | .pipeData l => [l.epFd, l.connNotifyRecvFd, l.connNotifySendFd]
  | .ctlConn l | .ctlData l | .thread l => l.descriptors
  | .socket epollFd => [epollFd]
  | .bind epollFd lsfd | .listen epollFd lsfd | .getfl epollFd lsfd | .setfl epollFd lsfd
  | .ctlListen epollFd lsfd | .loop epollFd lsfd => [epollFd, lsfd]
  | .epollCreate _ | .epollCreateMain | .exited _ => []

/-- The process while it starts.  `watched` are the registrations that succeeded: the
epoll descriptor and the descriptor. -/
structure Startup where
  iPoolSize : Int
  vecLiteReactor : List ReactorFds
  pc : StartPc
  openFds : Finset Int
  watched : List (Int × Int)
  bIsStop : Bool
  backlog : List Nat
  edge : Bool
  deriving DecidableEq

/-- The system calls of the startup with their results, a client that connects, and
`sigterm_handler`. -/
inductive StartEvent where
  | epoll_create (fd : Int)
  | pipe (fds : Option (Int × Int))
  | epoll_ctl (succeeds : Bool)
  | pthread_create (iRet : Int)
  | socket (fd : Int)
  | bind (succeeds : Bool)
  | listen (succeeds : Bool)
  | fcntl (succeeds : Bool)
  | connect (client : Nat)
  | signal
  deriving DecidableEq, Repr

/-- The loop of `LiteReactorPool::Init`, at the test for the index. -/
def StartPc.turn (iPoolSize i : Int) : StartPc :=
  if i < iPoolSize then .epollCreate (.numbered (i + 1)) else .epollCreateMain

/-- `LiteReactorPool::Init`, up to its first system call: the size is checked. -/
def Startup.start (iSize : Int) (openFds : Finset Int) : Startup :=
  if iSize ≤ 0 ∨ (LITEREACTORPOOL_MAX_SIZE : Int) < iSize then
    ⟨0, [], .exited 1, openFds, [], false, [], false⟩
  else ⟨iSize, [], .turn iSize 0, openFds, [], false, [], false⟩

/-- A failed call ends the process. -/
def Startup.fail (s : Startup) : Startup := { s with pc := .exited 1 }

/-- A descriptor is opened. -/
def Startup.opens (s : Startup) (fd : Int) (pc : StartPc) : Startup :=
  { s with openFds := insert fd s.openFds, pc := pc }

/-- A call of `epoll_ctl`, whatever it returns. -/
def Startup.registers (s : Startup) (epFd fd : Int) (succeeds : Bool) (pc : StartPc) :
    Startup :=
  { s with watched := if succeeds then s.watched ++ [(epFd, fd)] else s.watched, pc := pc }

/-- The socket queues connections. -/
def StartPc.listens : StartPc → Bool
  | .getfl _ _ | .setfl _ _ | .ctlListen _ _ | .loop _ _ => true
  | _ => false

/-- The state after a step; `none` where the main thread is not there. -/
def Startup.next (s : Startup) : StartEvent → Option Startup
  | .epoll_create fd =>
      match s.pc with
      | .epollCreate l =>
          some (if fd < 0 then s.fail else s.opens fd (.pipeConn { l with epFd := fd }))
      | .epollCreateMain => some (if fd < 0 then s.fail else s.opens fd (.socket fd))
      | _ => none
  | .pipe none =>
      match s.pc with
      | .pipeConn _ | .pipeData _ => some s.fail
      | _ => none
  | .pipe (some fds) =>
      match s.pc with
      | .pipeConn l =>
          some ((s.opens fds.1 s.pc).opens fds.2
            (.pipeData { l with connNotifyRecvFd := fds.1, connNotifySendFd := fds.2 }))
      | .pipeData l =>
          some ((s.opens fds.1 s.pc).opens fds.2
            (.ctlConn { l with dataNotifyRecvFd := fds.1, dataNotifySendFd := fds.2 }))
      | _ => none
  | .epoll_ctl succeeds =>
      match s.pc with
      | .ctlConn l => some (s.registers l.epFd l.connNotifyRecvFd succeeds (.ctlData l))
      | .ctlData l => some (s.registers l.epFd l.dataNotifyRecvFd succeeds (.thread l))
      | .ctlListen epollFd lsfd =>
          -- the kernel reports what is queued when the socket is registered
          some { s.registers epollFd lsfd succeeds (.loop epollFd lsfd) with
            edge := succeeds && !s.backlog.isEmpty }
      | _ => none
  | .pthread_create iRet =>
      match s.pc with
      | .thread l =>
          some (if iRet ≠ 0 then s.fail
            else { s with
              vecLiteReactor := s.vecLiteReactor ++ [l]
              pc := .turn s.iPoolSize l.ObjNO })
      | _ => none
  | .socket fd =>
      match s.pc with
      | .socket epollFd => some (if fd = -1 then s.fail else s.opens fd (.bind epollFd fd))
      | _ => none
  | .bind succeeds =>
      match s.pc with
      | .bind epollFd lsfd =>
          some (if succeeds then { s with pc := .listen epollFd lsfd } else s.fail)
      | _ => none
  | .listen succeeds =>
      match s.pc with
      | .listen epollFd lsfd =>
          some (if succeeds then { s with pc := .getfl epollFd lsfd } else s.fail)
      | _ => none
  | .fcntl succeeds =>
      match s.pc with
      | .getfl epollFd lsfd =>
          some (if succeeds then { s with pc := .setfl epollFd lsfd } else s.fail)
      | .setfl epollFd lsfd =>
          some (if succeeds then { s with pc := .ctlListen epollFd lsfd } else s.fail)
      | _ => none
  | .connect client =>
      match s.pc with
      | .loop _ _ => none
      | pc => if pc.listens then some { s with backlog := s.backlog ++ [client] } else none
  | .signal => some { s with bIsStop := true }

/-- What the kernel can answer: a new descriptor is one that is not open.  `ctlMayFail`
says whether `epoll_ctl` can fail. -/
def StartEnabled (ctlMayFail : Bool) (s : Startup) : StartEvent → Prop
  | .epoll_create fd => 0 ≤ fd → fd ∉ s.openFds
  | .pipe (some fds) =>
      0 ≤ fds.1 ∧ 0 ≤ fds.2 ∧ fds.1 ≠ fds.2 ∧ fds.1 ∉ s.openFds ∧ fds.2 ∉ s.openFds
  | .socket fd => fd = -1 ∨ (0 ≤ fd ∧ fd ∉ s.openFds)
  | .epoll_ctl false => ctlMayFail = true
  | _ => True

instance instDecidableStartEnabled (ctlMayFail : Bool) (s : Startup) :
    (ev : StartEvent) → Decidable (StartEnabled ctlMayFail s ev)
  | .epoll_create fd => inferInstanceAs (Decidable (0 ≤ fd → fd ∉ s.openFds))
  | .pipe (some fds) =>
      inferInstanceAs (Decidable
        (0 ≤ fds.1 ∧ 0 ≤ fds.2 ∧ fds.1 ≠ fds.2 ∧ fds.1 ∉ s.openFds ∧ fds.2 ∉ s.openFds))
  | .socket fd => inferInstanceAs (Decidable (fd = -1 ∨ (0 ≤ fd ∧ fd ∉ s.openFds)))
  | .epoll_ctl false => inferInstanceAs (Decidable (ctlMayFail = true))
  | .epoll_ctl true | .pipe none | .pthread_create _ | .bind _ | .listen _ | .fcntl _
  | .connect _ | .signal => isTrue trivial

/-- The runs of the startup, for a pool size and the descriptors open so far. -/
def startup (ctlMayFail : Bool) (iSize : Int) (openFds : Finset Int) :
    System Startup StartEvent where
  init s := s = .start iSize openFds
  step s ev s' := StartEnabled ctlMayFail s ev ∧ s.next ev = some s'

/-! ## What a step can do -/

/-- The ends of a new pipe. -/
def Ends (s : Startup) (fds : Int × Int) : Prop :=
  0 ≤ fds.1 ∧ 0 ≤ fds.2 ∧ fds.1 ≠ fds.2 ∧ fds.1 ∉ s.openFds ∧ fds.2 ∉ s.openFds

/-- **All that one step of the startup can do.** -/
inductive StartStep (s : Startup) : StartEvent → Startup → Prop where
  | failed (ev : StartEvent) : StartStep s ev s.fail
  | epollCreated (l : ReactorFds) (fd : Int) : s.pc = .epollCreate l → 0 ≤ fd →
      fd ∉ s.openFds →
      StartStep s (.epoll_create fd) (s.opens fd (.pipeConn { l with epFd := fd }))
  | connPiped (l : ReactorFds) (fds : Int × Int) : s.pc = .pipeConn l →
      Ends s fds →
      StartStep s (.pipe (some fds))
        ((s.opens fds.1 s.pc).opens fds.2
          (.pipeData { l with connNotifyRecvFd := fds.1, connNotifySendFd := fds.2 }))
  | dataPiped (l : ReactorFds) (fds : Int × Int) : s.pc = .pipeData l →
      Ends s fds →
      StartStep s (.pipe (some fds))
        ((s.opens fds.1 s.pc).opens fds.2
          (.ctlConn { l with dataNotifyRecvFd := fds.1, dataNotifySendFd := fds.2 }))
  | connWatched (l : ReactorFds) (succeeds : Bool) : s.pc = .ctlConn l →
      StartStep s (.epoll_ctl succeeds)
        (s.registers l.epFd l.connNotifyRecvFd succeeds (.ctlData l))
  | dataWatched (l : ReactorFds) (succeeds : Bool) : s.pc = .ctlData l →
      StartStep s (.epoll_ctl succeeds)
        (s.registers l.epFd l.dataNotifyRecvFd succeeds (.thread l))
  | started (l : ReactorFds) : s.pc = .thread l →
      StartStep s (.pthread_create 0)
        { s with vecLiteReactor := s.vecLiteReactor ++ [l], pc := .turn s.iPoolSize l.ObjNO }
  | mainCreated (fd : Int) : s.pc = .epollCreateMain → 0 ≤ fd → fd ∉ s.openFds →
      StartStep s (.epoll_create fd) (s.opens fd (.socket fd))
  | socketMade (epollFd fd : Int) : s.pc = .socket epollFd → 0 ≤ fd → fd ∉ s.openFds →
      StartStep s (.socket fd) (s.opens fd (.bind epollFd fd))
  | bound (epollFd lsfd : Int) : s.pc = .bind epollFd lsfd →
      StartStep s (.bind true) { s with pc := .listen epollFd lsfd }
  | listening (epollFd lsfd : Int) : s.pc = .listen epollFd lsfd →
      StartStep s (.listen true) { s with pc := .getfl epollFd lsfd }
  | flagsRead (epollFd lsfd : Int) : s.pc = .getfl epollFd lsfd →
      StartStep s (.fcntl true) { s with pc := .setfl epollFd lsfd }
  | flagsSet (epollFd lsfd : Int) : s.pc = .setfl epollFd lsfd →
      StartStep s (.fcntl true) { s with pc := .ctlListen epollFd lsfd }
  | listenWatched (epollFd lsfd : Int) (succeeds : Bool) : s.pc = .ctlListen epollFd lsfd →
      StartStep s (.epoll_ctl succeeds)
        { s.registers epollFd lsfd succeeds (.loop epollFd lsfd) with
          edge := succeeds && !s.backlog.isEmpty }
  | connect (client : Nat) : s.pc.listens = true → (∀ epollFd lsfd, s.pc ≠ .loop epollFd lsfd) →
      StartStep s (.connect client) { s with backlog := s.backlog ++ [client] }
  | signal : StartStep s .signal { s with bIsStop := true }

section Inversion

variable {ctlMayFail : Bool} {iSize : Int} {openFds : Finset Int} {s s' : Startup}

theorem StartStep.of_if {ev : StartEvent} {c : Prop} [Decidable c] {t : Startup}
    (hstep : c → StartStep s ev t) : StartStep s ev (if c then t else s.fail) := by
  by_cases hc : c
  · rw [if_pos hc]
    exact hstep hc
  · rw [if_neg hc]
    exact .failed ev

theorem StartStep.of_unless {ev : StartEvent} {c : Prop} [Decidable c] {t : Startup}
    (hstep : ¬c → StartStep s ev t) : StartStep s ev (if c then s.fail else t) := by
  rw [← ite_not]
  exact .of_if hstep

/-- **The step inversion of the startup.** -/
theorem Startup.next_cases {ev : StartEvent} 
    (hst : (startup ctlMayFail iSize openFds).step s ev s') : StartStep s ev s' := by
  obtain ⟨henabled, hnext⟩ := hst
  cases ev with
  | epoll_create fd =>
      simp only [Startup.next] at hnext
      cases hpc : s.pc <;> rw [hpc] at hnext <;> try cases hnext
      · refine .of_unless fun hfd => ?_
        exact .epollCreated _ fd hpc (by omega) (henabled (by omega))
      · refine .of_unless fun hfd => ?_
        exact .mainCreated fd hpc (by omega) (henabled (by omega))
  | pipe fds =>
      cases fds with
      | none =>
          simp only [Startup.next] at hnext
          cases hpc : s.pc <;> rw [hpc] at hnext <;> try cases hnext
          all_goals exact .failed _
      | some fds =>
          simp only [Startup.next] at hnext
          cases hpc : s.pc <;> rw [hpc] at hnext <;> try cases hnext
          · rw [← hpc]
            exact .connPiped _ fds hpc henabled
          · rw [← hpc]
            exact .dataPiped _ fds hpc henabled
  | epoll_ctl succeeds =>
      simp only [Startup.next] at hnext
      cases hpc : s.pc <;> rw [hpc] at hnext <;> try cases hnext
      · exact .connWatched _ succeeds hpc
      · exact .dataWatched _ succeeds hpc
      · exact .listenWatched _ _ succeeds hpc
  | pthread_create iRet =>
      simp only [Startup.next] at hnext
      cases hpc : s.pc <;> rw [hpc] at hnext <;> try cases hnext
      refine .of_unless fun hzero => ?_
      obtain rfl := not_not.mp hzero
      exact .started _ hpc
  | socket fd =>
      simp only [Startup.next] at hnext
      cases hpc : s.pc <;> rw [hpc] at hnext <;> try cases hnext
      refine .of_unless fun hfd => ?_
      obtain ⟨hnonneg, hnew⟩ := henabled.resolve_left hfd
      exact .socketMade _ fd hpc hnonneg hnew
  | bind succeeds =>
      simp only [Startup.next] at hnext
      cases hpc : s.pc <;> rw [hpc] at hnext <;> try cases hnext
      refine .of_if ?_
      rintro rfl
      exact .bound _ _ hpc
  | listen succeeds =>
      simp only [Startup.next] at hnext
      cases hpc : s.pc <;> rw [hpc] at hnext <;> try cases hnext
      refine .of_if ?_
      rintro rfl
      exact .listening _ _ hpc
  | fcntl succeeds =>
      simp only [Startup.next] at hnext
      cases hpc : s.pc <;> rw [hpc] at hnext <;> try cases hnext
      · refine .of_if ?_
        rintro rfl
        exact .flagsRead _ _ hpc
      · refine .of_if ?_
        rintro rfl
        exact .flagsSet _ _ hpc
  | connect client =>
      simp only [Startup.next] at hnext
      split at hnext
      · cases hnext
      · rename_i hloop
        rw [Option.ite_none_right_eq_some, Option.some.injEq] at hnext
        obtain ⟨hlistens, rfl⟩ := hnext
        exact .connect client hlistens hloop
  | signal =>
      simp only [Startup.next, Option.some.injEq] at hnext
      exact hnext ▸ .signal

end Inversion

/-! ## Descriptors -/

/-- The descriptors that the startup has opened and kept. -/
def Startup.descriptors (s : Startup) : List Int :=
  s.vecLiteReactor.flatMap ReactorFds.descriptors ++ s.pc.descriptors

/-- These descriptors are distinct, open, and were not open before. -/
structure Opened (before now : Finset Int) (fds : List Int) : Prop where
  nodup : fds.Nodup
  nonneg : ∀ fd ∈ fds, 0 ≤ fd
  isOpen : ∀ fd ∈ fds, fd ∈ now
  new : ∀ fd ∈ fds, fd ∉ before
  kept : before ⊆ now

section Descriptors

variable {before now : Finset Int} {fds : List Int} {s s' : Startup}

theorem Opened.snoc (h : Opened before now fds) {fd : Int} (hnonneg : 0 ≤ fd)
    (hnew : fd ∉ now) : Opened before (insert fd now) (fds ++ [fd]) where
  nodup := by
    refine List.nodup_append.mpr ⟨h.nodup, List.nodup_singleton fd, ?_⟩
    rintro fd' hmem fd'' hlast rfl
    rw [List.mem_singleton] at hlast
    exact hnew (hlast ▸ h.isOpen fd' hmem)
  nonneg := by
    intro fd' hmem
    rcases List.mem_append.mp hmem with hold | hlast
    · exact h.nonneg fd' hold
    · rw [List.mem_singleton.mp hlast]
      exact hnonneg
  isOpen := by
    intro fd' hmem
    rcases List.mem_append.mp hmem with hold | hlast
    · exact Finset.mem_insert_of_mem (h.isOpen fd' hold)
    · rw [List.mem_singleton.mp hlast]
      exact Finset.mem_insert_self fd now
  new := by
    intro fd' hmem
    rcases List.mem_append.mp hmem with hold | hlast
    · exact h.new fd' hold
    · rw [List.mem_singleton.mp hlast]
      exact fun hbefore => hnew (h.kept hbefore)
  kept := h.kept.trans (Finset.subset_insert fd now)

/-- Both ends of a pipe. -/
theorem Opened.snoc_pipe (h : Opened before now fds) {ends : Int × Int} (hread : 0 ≤ ends.1)
    (hwrite : 0 ≤ ends.2) (hne : ends.1 ≠ ends.2) (hreadNew : ends.1 ∉ now)
    (hwriteNew : ends.2 ∉ now) :
    Opened before (insert ends.2 (insert ends.1 now)) (fds ++ [ends.1, ends.2]) := by
  have hfirst := h.snoc hread hreadNew
  have hsecond : ends.2 ∉ insert ends.1 now := by
    rw [Finset.mem_insert, not_or]
    exact ⟨Ne.symm hne, hwriteNew⟩
  have hboth := hfirst.snoc hwrite hsecond
  rw [List.append_assoc] at hboth
  exact hboth

theorem Opened.sublist (h : Opened before now fds) {fewer : List Int}
    (hsub : fewer.Sublist fds) : Opened before now fewer where
  nodup := h.nodup.sublist hsub
  nonneg := fun fd hmem => h.nonneg fd (hsub.subset hmem)
  isOpen := fun fd hmem => h.isOpen fd (hsub.subset hmem)
  new := fun fd hmem => h.new fd (hsub.subset hmem)
  kept := h.kept

theorem Opened.none (before : Finset Int) : Opened before before [] where
  nodup := List.nodup_nil
  nonneg := by simp
  isOpen := by simp
  new := by simp
  kept := Finset.Subset.refl before

@[simp] theorem turn_descriptors (n i : Int) : (StartPc.turn n i).descriptors = [] := by
  unfold StartPc.turn
  split <;> rfl

/-- The descriptors at a system call that opens none of its own. -/
theorem Startup.descriptors_of {pc : StartPc} (hpc : s.pc = pc) :
    s.descriptors = s.vecLiteReactor.flatMap ReactorFds.descriptors ++ pc.descriptors := by
  rw [Startup.descriptors, hpc]

/-- **One step keeps the descriptors apart.** -/
theorem StartStep.opened {ev : StartEvent} (hst : StartStep s ev s')
    (h : Opened before s.openFds s.descriptors) : Opened before s'.openFds s'.descriptors := by
  cases hst with
  | failed =>
      refine h.sublist ?_
      show (s.vecLiteReactor.flatMap ReactorFds.descriptors ++ []).Sublist _
      rw [List.append_nil]
      exact List.sublist_append_left _ _
  | epollCreated l fd hpc hnonneg hnew | mainCreated fd hpc hnonneg hnew =>
      rw [Startup.descriptors_of hpc, StartPc.descriptors, List.append_nil] at h
      exact h.snoc hnonneg hnew
  | connPiped l ends hpc henabled =>
      obtain ⟨hread, hwrite, hne, hreadNew, hwriteNew⟩ := henabled
      rw [Startup.descriptors_of hpc] at h
      have hpiped := h.snoc_pipe hread hwrite hne hreadNew hwriteNew
      rw [List.append_assoc] at hpiped
      exact hpiped
  | dataPiped l ends hpc henabled =>
      obtain ⟨hread, hwrite, hne, hreadNew, hwriteNew⟩ := henabled
      rw [Startup.descriptors_of hpc] at h
      have hpiped := h.snoc_pipe hread hwrite hne hreadNew hwriteNew
      rw [List.append_assoc] at hpiped
      exact hpiped
  | started l hpc =>
      rw [Startup.descriptors_of hpc] at h
      show Opened before s.openFds ((s.vecLiteReactor ++ [l]).flatMap _ ++ _)
      rw [turn_descriptors, List.append_nil, List.flatMap_append, List.flatMap_singleton]
      exact h
  | socketMade epollFd fd hpc hnonneg hnew =>
      rw [Startup.descriptors_of hpc] at h
      have hmade := h.snoc hnonneg hnew
      rw [List.append_assoc] at hmade
      exact hmade
  | connWatched l succeeds hpc | dataWatched l succeeds hpc =>
      rw [Startup.descriptors_of hpc] at h
      exact h
  | bound epollFd lsfd hpc | listening epollFd lsfd hpc | flagsRead epollFd lsfd hpc
  | flagsSet epollFd lsfd hpc =>
      rw [Startup.descriptors_of hpc] at h
      exact h
  | listenWatched epollFd lsfd succeeds hpc =>
      rw [Startup.descriptors_of hpc] at h
      exact h
  | connect client => exact h
  | signal => exact h

end Descriptors

/-! ## The reactors -/

/-- `k` reactors of `n` are in the vector: the next one is under construction, or all are
there. -/
def StartPc.Counts (n : Int) (k : Nat) : StartPc → Prop
  | .epollCreate l | .pipeConn l | .pipeData l | .ctlConn l | .ctlData l | .thread l =>
      l.ObjNO = k + 1 ∧ (k : Int) < n
  | .exited _ => True
  | _ => (k : Int) = n

/-- The reactors are numbered from 1 on. -/
structure Startup.Counted (iSize : Int) (s : Startup) : Prop where
  numbered : ∀ (j : Nat) (l : ReactorFds), s.vecLiteReactor[j]? = some l → l.ObjNO = j + 1
  counts : s.pc.Counts s.iPoolSize s.vecLiteReactor.length
  size : (∃ status, s.pc = .exited status) ∨
    (s.iPoolSize = iSize ∧ 0 < iSize ∧ iSize ≤ LITEREACTORPOOL_MAX_SIZE)

/-- The registrations made so far, and what is queued, are known to the kernel. -/
structure Startup.Registered (s : Startup) : Prop where
  reactors : ∀ l ∈ s.vecLiteReactor,
    (l.epFd, l.connNotifyRecvFd) ∈ s.watched ∧ (l.epFd, l.dataNotifyRecvFd) ∈ s.watched
  conn : ∀ l, s.pc = .ctlData l ∨ s.pc = .thread l → (l.epFd, l.connNotifyRecvFd) ∈ s.watched
  data : ∀ l, s.pc = .thread l → (l.epFd, l.dataNotifyRecvFd) ∈ s.watched
  loop : ∀ epollFd lsfd, s.pc = .loop epollFd lsfd →
    (epollFd, lsfd) ∈ s.watched ∧ (s.backlog ≠ [] → s.edge = true)

section Reactors

variable {ctlMayFail : Bool} {iSize : Int} {openFds : Finset Int} {s s' : Startup}

theorem turn_counts {n : Int} {k : Nat} (hk : (k : Int) ≤ n) : (StartPc.turn n k).Counts n k := by
  unfold StartPc.turn
  by_cases hlt : (k : Int) < n
  · rw [if_pos hlt]
    exact ⟨rfl, hlt⟩
  · rw [if_neg hlt]
    exact le_antisymm hk (not_lt.mp hlt)

/-- What a step that builds no reactor keeps. -/
theorem Startup.Counted.moved (h : s.Counted iSize) {pc : StartPc} (hpc : s.pc = pc)
    (hgoing : ∀ status, pc ≠ .exited status) (hsame : s'.iPoolSize = s.iPoolSize)
    (hvec : s'.vecLiteReactor = s.vecLiteReactor)
    (hcounts : pc.Counts s.iPoolSize s.vecLiteReactor.length →
      s'.pc.Counts s.iPoolSize s.vecLiteReactor.length) : s'.Counted iSize where
  numbered := by rw [hvec]; exact h.numbered
  counts := by
    rw [hsame, hvec]
    exact hcounts (hpc ▸ h.counts)
  size := by
    rcases h.size with ⟨status, hexited⟩ | hsize
    · exact absurd (hpc.symm.trans hexited) (hgoing status)
    · exact Or.inr (hsame ▸ hsize)

/-- **One step keeps the numbers of the reactors.** -/
theorem StartStep.counted {ev : StartEvent} (hst : StartStep s ev s') (h : s.Counted iSize) :
    s'.Counted iSize := by
  cases hst with
  | failed => exact ⟨h.numbered, trivial, Or.inl ⟨1, rfl⟩⟩
  | epollCreated l fd hpc => exact h.moved hpc (by simp) rfl rfl id
  | connPiped l ends hpc => exact h.moved hpc (by simp) rfl rfl id
  | dataPiped l ends hpc => exact h.moved hpc (by simp) rfl rfl id
  | connWatched l succeeds hpc => exact h.moved hpc (by simp) rfl rfl id
  | dataWatched l succeeds hpc => exact h.moved hpc (by simp) rfl rfl id
  | mainCreated fd hpc => exact h.moved hpc (by simp) rfl rfl id
  | socketMade epollFd fd hpc => exact h.moved hpc (by simp) rfl rfl id
  | bound epollFd lsfd hpc => exact h.moved hpc (by simp) rfl rfl id
  | listening epollFd lsfd hpc => exact h.moved hpc (by simp) rfl rfl id
  | flagsRead epollFd lsfd hpc => exact h.moved hpc (by simp) rfl rfl id
  | flagsSet epollFd lsfd hpc => exact h.moved hpc (by simp) rfl rfl id
  | listenWatched epollFd lsfd succeeds hpc => exact h.moved hpc (by simp) rfl rfl id
  | connect client => exact ⟨h.numbered, h.counts, h.size⟩
  | signal => exact ⟨h.numbered, h.counts, h.size⟩
  | started l hpc =>
      have hcounts := h.counts
      rw [hpc] at hcounts
      obtain ⟨hnumber, hlt⟩ := hcounts
      have hlength : ((s.vecLiteReactor ++ [l]).length : Int) = l.ObjNO := by
        rw [List.length_append, List.length_singleton, hnumber]
        push_cast
        rfl
      refine ⟨?_, ?_, ?_⟩
      · intro j l' hl'
        rw [List.getElem?_append] at hl'
        split at hl'
        · exact h.numbered j l' hl'
        · rename_i hpast
          obtain ⟨hj, hlast⟩ := List.getElem?_eq_some_iff.mp hl'
          rw [List.length_singleton] at hj
          have hat : j = s.vecLiteReactor.length := by omega
          rw [List.getElem_singleton] at hlast
          rw [← hlast, hnumber, hat]
      · show (StartPc.turn s.iPoolSize l.ObjNO).Counts _ _
        rw [← hlength]
        refine turn_counts ?_
        rw [hlength, hnumber]
        exact hlt
      · rcases h.size with ⟨status, hexited⟩ | hsize
        · rw [hpc] at hexited
          cases hexited
        · exact Or.inr hsize

/-- The place is not behind a registration. -/
def StartPc.Plain : StartPc → Prop
  | .ctlData _ | .thread _ | .loop _ _ => False
  | _ => True

/-- Only the reactors in the vector matter elsewhere. -/
theorem Startup.Registered.of_plain (hreactors : ∀ l ∈ s.vecLiteReactor,
      (l.epFd, l.connNotifyRecvFd) ∈ s.watched ∧ (l.epFd, l.dataNotifyRecvFd) ∈ s.watched)
    (hplain : s.pc.Plain) : s.Registered where
  reactors := hreactors
  conn := by
    intro l hat
    rcases hat with hat | hat
    · rw [hat] at hplain
      exact hplain.elim
    · rw [hat] at hplain
      exact hplain.elim
  data := by
    intro l hat
    rw [hat] at hplain
    exact hplain.elim
  loop := by
    intro epollFd lsfd hat
    rw [hat] at hplain
    exact hplain.elim

theorem turn_plain (n i : Int) : (StartPc.turn n i).Plain := by
  unfold StartPc.turn
  split <;> trivial

/-- **One step keeps the registrations**, where `epoll_ctl` succeeds. -/
theorem StartStep.registered {ev : StartEvent} (hst : StartStep s ev s')
    (hctl : ev ≠ .epoll_ctl false) (h : s.Registered) : s'.Registered := by
  have hsucceeds : ∀ succeeds, StartEvent.epoll_ctl succeeds ≠ .epoll_ctl false →
      succeeds = true := by
    intro succeeds hne
    cases succeeds with
    | true => rfl
    | false => exact absurd rfl hne
  cases hst with
  | started l hpc =>
      refine .of_plain ?_ (turn_plain _ _)
      intro l' hmem
      rcases List.mem_append.mp hmem with hold | hlast
      · exact h.reactors l' hold
      · rw [List.mem_singleton.mp hlast]
        exact ⟨h.conn l (Or.inr hpc), h.data l hpc⟩
  | connWatched l succeeds hpc =>
      obtain rfl := hsucceeds _ hctl
      have hkept : ∀ p, p ∈ s.watched → p ∈ s.watched ++ [(l.epFd, l.connNotifyRecvFd)] :=
        fun p => List.mem_append_left _
      refine ⟨fun l' hmem => ?_, ?_, ?_, ?_⟩
      · exact ⟨hkept _ (h.reactors l' hmem).1, hkept _ (h.reactors l' hmem).2⟩
      · intro l' hat
        rcases hat with hat | hat
        · obtain rfl := StartPc.ctlData.inj hat
          exact List.mem_append_right _ (List.mem_singleton_self _)
        · cases hat
      · rintro l' ⟨⟩
      · rintro epollFd lsfd ⟨⟩
  | dataWatched l succeeds hpc =>
      obtain rfl := hsucceeds _ hctl
      have hkept : ∀ p, p ∈ s.watched → p ∈ s.watched ++ [(l.epFd, l.dataNotifyRecvFd)] :=
        fun p => List.mem_append_left _
      refine ⟨fun l' hmem => ?_, ?_, ?_, ?_⟩
      · exact ⟨hkept _ (h.reactors l' hmem).1, hkept _ (h.reactors l' hmem).2⟩
      · intro l' hat
        rcases hat with hat | hat
        · cases hat
        · obtain rfl := StartPc.thread.inj hat
          exact hkept _ (h.conn l (Or.inl hpc))
      · intro l' hat
        obtain rfl := StartPc.thread.inj hat
        exact List.mem_append_right _ (List.mem_singleton_self _)
      · rintro epollFd lsfd ⟨⟩
  | listenWatched epollFd lsfd succeeds hpc =>
      obtain rfl := hsucceeds _ hctl
      have hkept : ∀ p, p ∈ s.watched → p ∈ s.watched ++ [(epollFd, lsfd)] :=
        fun p => List.mem_append_left _
      refine ⟨fun l' hmem => ?_, ?_, ?_, ?_⟩
      · exact ⟨hkept _ (h.reactors l' hmem).1, hkept _ (h.reactors l' hmem).2⟩
      · intro l' hat
        rcases hat with hat | hat <;> cases hat
      · intro l' hat
        cases hat
      · intro epollFd' lsfd' hat
        obtain ⟨rfl, rfl⟩ := StartPc.loop.inj hat
        refine ⟨List.mem_append_right _ (List.mem_singleton_self _), fun hne => ?_⟩
        have hqueued : s.backlog ≠ [] := hne
        show (true && !s.backlog.isEmpty) = true
        simpa using hqueued
  | connect client hlistens hloop =>
      refine ⟨h.reactors, h.conn, h.data, ?_⟩
      intro epollFd lsfd hat
      exact absurd hat (hloop epollFd lsfd)
  | signal => exact ⟨h.reactors, h.conn, h.data, h.loop⟩
  | _ => exact .of_plain h.reactors trivial

/-- What every state of the startup keeps. -/
theorem startup_invariant (hs : (startup ctlMayFail iSize openFds).Reachable s) :
    Opened openFds s.openFds s.descriptors ∧ s.Counted iSize ∧
      (ctlMayFail = false → s.Registered) := by
  refine System.invariant_of_step (P := fun s : Startup =>
    Opened openFds s.openFds s.descriptors ∧ s.Counted iSize ∧
      (ctlMayFail = false → s.Registered)) ?_ ?_ hs
  · rintro s rfl
    unfold Startup.start
    by_cases hsize : iSize ≤ 0 ∨ (LITEREACTORPOOL_MAX_SIZE : Int) < iSize
    · rw [if_pos hsize]
      refine ⟨.none openFds, ⟨by simp, trivial, Or.inl ⟨1, rfl⟩⟩, fun _ => ?_⟩
      exact .of_plain (by simp) trivial
    · rw [if_neg hsize]
      refine ⟨?_, ⟨by simp, ?_, Or.inr ⟨rfl, by omega, by omega⟩⟩, fun _ => ?_⟩
      · show Opened openFds openFds (_ ++ _)
        rw [turn_descriptors]
        exact .none openFds
      · exact turn_counts (k := 0) (by push_cast; omega)
      · exact .of_plain (by simp) (turn_plain _ _)
  · rintro s ev s' - ⟨hopened, hcounted, hregistered⟩ hst
    have hcases := Startup.next_cases hst
    refine ⟨hcases.opened hopened, hcases.counted hcounted, fun hctl => ?_⟩
    refine hcases.registered ?_ (hregistered hctl)
    rintro rfl
    have hfails : ctlMayFail = true := hst.1
    rw [hctl] at hfails
    cases hfails

end Reactors

/-- `LiteReactorPool::HashGet`, of a positive descriptor; `none` where `at` throws. -/
def Startup.HashGet (s : Startup) (fd : Int) : Option ReactorFds :=
  s.vecLiteReactor[(fd % s.iPoolSize).toNat]?

/-- **What has been built.**  However the calls of the startup go and whenever clients
connect: all descriptors it has opened and kept are distinct and were not open before, and
the reactors made so far are numbered from 1 on.  When the main loop is entered there are
as many as asked for, a number from 1 to 150, `HashGet` finds one for every descriptor, and
the epoll instance and the listening socket of the main thread are none of theirs. -/
theorem startup_builds_pool (ctlMayFail : Bool) (iSize : Int) (openFds : Finset Int)
    (s : Startup) (hs : (startup ctlMayFail iSize openFds).Reachable s) :
    s.descriptors.Nodup ∧
    (∀ fd ∈ s.descriptors, 0 ≤ fd ∧ fd ∈ s.openFds ∧ fd ∉ openFds) ∧
    (∀ (j : Nat) (l : ReactorFds), s.vecLiteReactor[j]? = some l → l.ObjNO = j + 1) ∧
    ∀ epollFd lsfd, s.pc = .loop epollFd lsfd →
      s.descriptors = s.vecLiteReactor.flatMap ReactorFds.descriptors ++ [epollFd, lsfd] ∧
      (s.vecLiteReactor.length : Int) = iSize ∧ 0 < iSize ∧ iSize ≤ LITEREACTORPOOL_MAX_SIZE ∧
      ∀ fd, 0 < fd → ∃ l, s.HashGet fd = some l ∧ l.ObjNO = fd % iSize + 1 := by
  obtain ⟨hopened, hcounted, -⟩ := startup_invariant hs
  refine ⟨hopened.nodup, ?_, hcounted.numbered, ?_⟩
  · intro fd hmem
    exact ⟨hopened.nonneg fd hmem, hopened.isOpen fd hmem, hopened.new fd hmem⟩
  · intro epollFd lsfd hpc
    have hcounts := hcounted.counts
    rw [hpc] at hcounts
    have hlength : (s.vecLiteReactor.length : Int) = s.iPoolSize := hcounts
    obtain ⟨hsize, hpos, hmax⟩ := hcounted.size.resolve_left (by rw [hpc]; simp)
    refine ⟨Startup.descriptors_of hpc, hsize ▸ hlength, hpos, hmax, ?_⟩
    intro fd _
    have hlow := Int.emod_nonneg fd (show iSize ≠ 0 by omega)
    have hhigh := Int.emod_lt_of_pos fd hpos
    have hindex : (fd % iSize).toNat < s.vecLiteReactor.length := by omega
    refine ⟨s.vecLiteReactor[(fd % iSize).toNat], ?_, ?_⟩
    · rw [Startup.HashGet, hsize]
      exact List.getElem?_eq_getElem hindex
    · rw [hcounted.numbered _ _ (List.getElem?_eq_getElem hindex)]
      omega

/-! ## A startup that succeeds -/

/-- The only reactor, as its calls answer below. -/
def ReactorFds.first : ReactorFds := ⟨1, 3, 4, 5, 6, 7⟩

/-- The process at its main loop, with one reactor and a client that came early. -/
def Startup.ready : Startup where
  iPoolSize := 1
  vecLiteReactor := [.first]
  pc := .loop 8 9
  openFds := {9, 8, 7, 6, 5, 4, 3, 0, 1, 2}
  watched := [(3, 4), (3, 6), (8, 9)]
  bIsStop := false
  backlog := [7]
  edge := true

/-- The calls that lead there. -/
def Startup.calls : List StartEvent :=
  [.epoll_create 3, .pipe (some (4, 5)), .pipe (some (6, 7)), .epoll_ctl true, .epoll_ctl true,
    .pthread_create 0, .epoll_create 8, .socket 9, .bind true, .listen true, .connect 7,
    .fcntl true, .fcntl true, .epoll_ctl true]

theorem startup_ready : (startup false 1 {0, 1, 2}).Reachable .ready := by
  let next := fun (s : Startup) ev => if StartEnabled false s ev then s.next ev else none
  have hnext : ∀ s ev t, next s ev = some t → (startup false 1 {0, 1, 2}).step s ev t := by
    intro s ev t h
    exact Option.ite_none_right_eq_some.mp h
  have hcalls : Startup.calls.foldlM next (.start 1 {0, 1, 2}) = some .ready := by
    decide +kernel
  exact ⟨_, Startup.calls, rfl, System.Run.of_foldlM hnext Startup.calls hcalls⟩

/-- Its seven descriptors. -/
theorem startup_builds_pool_ready :
    Startup.ready.descriptors = [3, 4, 5, 6, 7, 8, 9] ∧ Startup.ready.descriptors.Nodup ∧
      ∃ l, Startup.ready.HashGet 10 = some l ∧ l.ObjNO = 10 % 1 + 1 := by
  obtain ⟨hnodup, -, -, hloop⟩ := startup_builds_pool false 1 {0, 1, 2} .ready startup_ready
  obtain ⟨-, -, -, -, hfound⟩ := hloop 8 9 rfl
  exact ⟨rfl, hnodup, hfound 10 (by decide)⟩

/-! ## The whole process -/

/-- A pool that has the reactors of the startup. -/
structure Startup.Configures (s : Startup) (cfg : PoolCfg) : Prop where
  size : (cfg.iPoolSize : Int) = s.iPoolSize
  notify : ∀ (i : Nat) (l : ReactorFds), s.vecLiteReactor[i]? = some l →
    cfg.connNotifyRecvFd i = l.connNotifyRecvFd ∧ cfg.dataNotifyRecvFd i = l.dataNotifyRecvFd

/-- The process when it enters the main loop, with reactors that have taken in nothing. -/
def Startup.enter (s : Startup) (reactors : Nat → LiteReactorBase) : Server where
  bIsStop := s.bIsStop
  backlog := s.backlog
  edge := s.edge
  pc := .test
  pool := ⟨.idle, reactors, ⟨s.openFds, fun _ => ∅⟩⟩
  arrived := s.backlog
  taken := []
  passed := []

/-- The process: it starts, or runs with the pool and the listening socket it has made. -/
inductive Process where
  | starting (s : Startup)
  | running (cfg : PoolCfg) (listenFd : Int) (s : Server)

/-- The steps of the process. -/
inductive ProcessEvent where
  | start (ev : StartEvent)
  | enter
  | serve (ev : ServerEvent)

/-- One step of the process. -/
inductive ProcessStep (h : Host) (iSize : Int) (openFds : Finset Int) :
    Process → ProcessEvent → Process → Prop where
  | start {s s' : Startup} {ev : StartEvent} : (startup false iSize openFds).step s ev s' →
      ProcessStep h iSize openFds (.starting s) (.start ev) (.starting s')
  | enter {s : Startup} {epollFd lsfd : Int} {cfg : PoolCfg}
      {reactors : Nat → LiteReactorBase} : s.pc = .loop epollFd lsfd → s.Configures cfg →
      (∀ i, (reactors i).Fresh) →
      ProcessStep h iSize openFds (.starting s) .enter (.running cfg lsfd (s.enter reactors))
  | serve {cfg : PoolCfg} {lsfd : Int} {s s' : Server} {ev : ServerEvent} :
      (server cfg h lsfd).step s ev s' →
      ProcessStep h iSize openFds (.running cfg lsfd s) (.serve ev) (.running cfg lsfd s')

/-- The runs of the process, from the call of `LiteReactorPool::Init` on. -/
def process (h : Host) (iSize : Int) (openFds : Finset Int) : System Process ProcessEvent where
  init p := p = .starting (.start iSize openFds)
  step := ProcessStep h iSize openFds

/-- The read ends of the notify pipes of a pool, and the listening socket. -/
def PoolCfg.ownFds (cfg : PoolCfg) (lsfd : Int) : List Int :=
  (List.range cfg.iPoolSize).flatMap (fun i => [cfg.connNotifyRecvFd i, cfg.dataNotifyRecvFd i]) ++
    [lsfd]

section Composition

variable {h : Host} {iSize : Int} {openFds : Finset Int} {s : Startup} {cfg : PoolCfg}

theorem Startup.Configures.length (hcfg : s.Configures cfg)
    (hlength : (s.vecLiteReactor.length : Int) = s.iPoolSize) :
    cfg.iPoolSize = s.vecLiteReactor.length := by
  have hsize := hcfg.size
  omega

/-- The read ends are among the descriptors that the startup has opened, in order. -/
theorem Startup.Configures.sublist (hcfg : s.Configures cfg) {epollFd lsfd : Int}
    (hpc : s.pc = .loop epollFd lsfd)
    (hlength : (s.vecLiteReactor.length : Int) = s.iPoolSize) :
    (cfg.ownFds lsfd).Sublist s.descriptors := by
  have hsize := hcfg.length hlength
  have hends : (List.range cfg.iPoolSize).flatMap
      (fun i => [cfg.connNotifyRecvFd i, cfg.dataNotifyRecvFd i]) =
      s.vecLiteReactor.flatMap fun l => [l.connNotifyRecvFd, l.dataNotifyRecvFd] := by
    have hmap : s.vecLiteReactor =
        (List.range cfg.iPoolSize).map fun i => (s.vecLiteReactor[i]?).getD (.numbered 0) := by
      refine List.ext_getElem (by simp [hsize]) ?_
      intro i hi _
      simp [List.getElem?_eq_getElem hi]
    rw [hmap, List.flatMap_map]
    refine List.flatMap_congr ?_
    intro i hi
    have hlt : i < s.vecLiteReactor.length := hsize ▸ List.mem_range.mp hi
    obtain ⟨hconn, hdata⟩ := hcfg.notify i _ (List.getElem?_eq_getElem hlt)
    rw [hconn, hdata, List.getElem?_eq_getElem hlt, Option.getD_some]
  rw [PoolCfg.ownFds, hends, Startup.descriptors_of hpc]
  refine List.Sublist.append ?_ ?_
  · refine List.Sublist.flatMap_right _ fun l _ => ?_
    rw [ReactorFds.descriptors]
    exact .cons _ (.cons_cons _ (.cons _ (.cons_cons _ (.cons _ .slnil))))
  · exact .cons _ (.refl _)

/-- **The startup makes a fresh server.** -/
theorem Startup.enter_fresh (hs : (startup false iSize openFds).Reachable s)
    {epollFd lsfd : Int} (hpc : s.pc = .loop epollFd lsfd) (hcfg : s.Configures cfg)
    {reactors : Nat → LiteReactorBase} (hreactors : ∀ i, (reactors i).Fresh) :
    (s.enter reactors).Fresh cfg := by
  obtain ⟨hopened, hcounted, hregistered⟩ := startup_invariant hs
  have hcounts := hcounted.counts
  rw [hpc] at hcounts
  have hopen : ∀ fd ∈ cfg.ownFds lsfd, fd ∈ s.openFds := fun fd hmem =>
    hopened.isOpen fd ((hcfg.sublist hpc hcounts).subset hmem)
  have hend : ∀ i, i < cfg.iPoolSize → ∀ fd ∈ [cfg.connNotifyRecvFd i, cfg.dataNotifyRecvFd i],
      fd ∈ s.openFds := by
    intro i hi fd hmem
    refine hopen fd (List.mem_append_left _ (List.mem_flatMap.mpr ⟨i, ?_, hmem⟩))
    exact List.mem_range.mpr hi
  exact
    { edge := ((hregistered rfl).loop epollFd lsfd hpc).2
      pc := rfl
      pool :=
        { acceptor := rfl
          reactors := hreactors
          epoll := fun _ => rfl
          connNotify := fun i hi => hend i hi _ List.mem_cons_self
          dataNotify := fun i hi => hend i hi _ (List.mem_cons_of_mem _ List.mem_cons_self) }
      arrived := rfl
      taken := rfl
      passed := rfl }

end Composition

/-- What a process that runs has made of its startup. -/
def Process.Serves (h : Host) (iSize : Int) (openFds : Finset Int) : Process → Prop
  | .starting s => (startup false iSize openFds).Reachable s
  | .running cfg lsfd s =>
      (server cfg h lsfd).Reachable s ∧ (cfg.iPoolSize : Int) = iSize ∧
        (cfg.ownFds lsfd).Nodup ∧ ∀ fd ∈ cfg.ownFds lsfd, 0 ≤ fd ∧ fd ∉ openFds

/-- **From the startup on.**  Whatever the kernel answers, whenever clients connect and
however the threads interleave: if `epoll_ctl` succeeds, every state of the process past its
startup is a state of the server with the pool it asked for, in which the notify pipes of
all reactors and the listening socket have descriptors of their own. -/
theorem process_serves (h : Host) (iSize : Int) (openFds : Finset Int) (p : Process)
    (hp : (process h iSize openFds).Reachable p) : p.Serves h iSize openFds := by
  refine System.invariant_of_step (P := Process.Serves h iSize openFds) ?_ ?_ hp
  · rintro p rfl
    exact .init rfl
  · intro p ev p' _ hserves hst
    cases hst with
    | start hstart => exact System.Reachable.step hserves hstart
    | @enter s epollFd lsfd cfg reactors hpc hcfg hreactors =>
        obtain ⟨hopened, hcounted, -⟩ := startup_invariant hserves
        have hcounts := hcounted.counts
        rw [hpc] at hcounts
        obtain ⟨hsize, -, -⟩ := hcounted.size.resolve_left (by rw [hpc]; simp)
        have hown := hopened.sublist (hcfg.sublist hpc hcounts)
        refine ⟨.init (Startup.enter_fresh hserves hpc hcfg hreactors), ?_, hown.nodup, ?_⟩
        · rw [hcfg.size, hsize]
        · exact fun fd hmem => ⟨hown.nonneg fd hmem, hown.new fd hmem⟩
    | serve hserve => exact ⟨hserves.1.step hserve, hserves.2⟩

/-- A client that came before the socket was registered is taken out of the backlog by the
first call of `accept`. -/
theorem process_serves_early_client :
    ∃ cfg s, (process .x86_64 1 {0, 1, 2}).Reachable (.running cfg 9 s) ∧
      s.taken = [(7, some 10)] ∧ (server cfg .x86_64 9).Reachable s ∧
      (cfg.ownFds 9).Nodup := by
  let cfg : PoolCfg := ⟨1, by decide, by decide, fun _ => 4, fun _ => 6, none, false⟩
  let S := process .x86_64 1 {0, 1, 2}
  have hcfg : Startup.ready.Configures cfg := by
    refine ⟨rfl, ?_⟩
    intro i l hl
    cases i with
    | zero =>
        obtain rfl := Option.some.inj hl
        exact ⟨rfl, rfl⟩
    | succ i => cases hl
  have hstart : S.Reachable (.starting .ready) := by
    refine System.invariant_of_step
      (P := fun s : Startup => S.Reachable (.starting s)) ?_ ?_ startup_ready
    · rintro s rfl
      exact .init rfl
    · intro s ev s' _ hs hst
      exact hs.step (ProcessStep.start hst)
  have h₀ := hstart.step (show S.step _ .enter (.running cfg 9 _) from
    .enter rfl hcfg (Pool.boot_fresh none).reactors)
  have h₁ := h₀.step (show S.step _ (.serve .test) _ from .serve ⟨trivial, rfl⟩)
  have h₂ := h₁.step (show S.step _ (.serve (.wait [9])) _ from
    .serve ⟨Or.inr ⟨rfl, rfl, List.cons_ne_nil _ _⟩, rfl⟩)
  have h₃ := h₂.step (show S.step _ (.serve .dispatch) _ from .serve ⟨trivial, rfl⟩)
  have hnew : (10 : Int) ∉ Startup.ready.openFds := by decide
  have h₄ := h₃.step (show S.step _ (.serve (.accept ⟨10, .EAGAIN⟩)) _ from
    .serve ⟨Or.inl ⟨show (0 : Int) < 10 by decide, List.cons_ne_nil _ _, hnew⟩, rfl⟩)
  obtain ⟨hserves, -, hnodup, -⟩ := process_serves .x86_64 1 {0, 1, 2} _ h₄
  exact ⟨cfg, _, h₄, rfl, hserves, hnodup⟩

end MyGenSvr.Ports
