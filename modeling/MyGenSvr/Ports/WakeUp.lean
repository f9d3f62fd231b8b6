import MyGenSvr.Ports.Ownership

/-!
# No lost wake-up

A connection in the queue of a reactor is never forgotten: as long as every
write to the notify pipe raises an edge, there is always somebody who will come
to the queue.  What is popped comes out in the order of the pushes.

## Main results

* `Woken.step` — one step of the process keeps the reactors woken.
* `no_lost_wakeup` — the invariant over every reachable state.
-/

namespace MyGenSvr.Ports

open MyGenSvr.Verified.Transition

/-- The points of `HandleNewConn` at which it holds the mutex. -/
def Pc.Guarded : Pc → Prop
  | .draining | .popped _ | .rejected _ | .inited _ _ | .registered _ _ => True
  | _ => False

/-- The descriptor for which `OnNewConn` holds the mutex. -/
def AcceptorPc.guards : AcceptorPc → Option Int
  | .locked fd | .pushed fd | .wrote fd => some fd
  | _ => none

/-- Somebody will come to the queue of reactor `i`: an edge is pending, or its
event is in the batch at hand, or `HandleNewConn` is about to take the mutex, or
has it, or `OnNewConn` is about to write. -/
def Awaited (cfg : PoolCfg) (acceptor : AcceptorPc) (i : Nat) (l : LiteReactorBase) : Prop :=
  l.edge = true ∨ cfg.connNotifyRecvFd i ∈ l.events ∨ l.pc = .lockWait ∨
    l.mutexConn = some .reactor ∨ ∃ fd, acceptor = .pushed fd ∧ cfg.HashGet fd = i

/-- The hand-over to reactor `i`. -/
structure Woken (cfg : PoolCfg) (acceptor : AcceptorPc) (i : Nat) (l : LiteReactorBase) :
    Prop where
  guarded : l.pc.Guarded → l.mutexConn = some .reactor
  guards : ∀ fd, acceptor.guards = some fd → cfg.HashGet fd = i →
    l.mutexConn = some .acceptor
  fetched : l.pc = .wait → l.events = []
  awaited : l.queConnFd ≠ [] → Awaited cfg acceptor i l
  order : l.pushed = l.popped ++ l.queConnFd
  handled : l.popped = l.settled.map Prod.fst ++ l.pc.hand.toList

/-- What was popped was inserted or closed. -/
def Fates (l : LiteReactorBase) : Prop :=
  ∀ fd fate, (fd, fate) ∈ l.settled → fate = .inserted ∨ fate = .closed

section Loop

variable {cfg : PoolCfg} {h : Host} {acceptor : AcceptorPc} {i : Nat}
  {l l' : LiteReactorBase}

theorem Woken.fresh (hl : l.Fresh) (hidle : acceptor = .idle) : Woken cfg acceptor i l where
  guarded := by simp [hl.pc, Pc.Guarded]
  guards := by simp [hidle, AcceptorPc.guards]
  fetched := fun _ => hl.events
  awaited := fun hne => absurd hl.queConnFd hne
  order := by rw [hl.pushed, hl.popped, hl.queConnFd]; rfl
  handled := by rw [hl.popped, hl.settled, hl.pc]; rfl

theorem Woken.handled_at (hl : Woken cfg acceptor i l) {pc : Pc} (hpc : l.pc = pc) :
    l.popped = l.settled.map Prod.fst ++ pc.hand.toList := by
  rw [hl.handled, hpc]

/-- `OnNewConn` does not hold a mutex that is free, or that the reactor has. -/
theorem Woken.unguarded (hl : Woken cfg acceptor i l) (hmutex : l.mutexConn ≠ some .acceptor)
    (fd : Int) (hfd : acceptor.guards = some fd) : cfg.HashGet fd ≠ i :=
  fun hi => hmutex (hl.guards fd hfd hi)

/-- A step that leaves the queue, the mutex, the edge and the notifications at
hand alone. -/
theorem Woken.stay (hl : Woken cfg acceptor i l)
    (hqueue : (l'.pushed, l'.popped, l'.queConnFd) = (l.pushed, l.popped, l.queConnFd))
    (hmutex : l'.mutexConn = l.mutexConn) (hedge : l'.edge = l.edge)
    (hsettled : l'.settled.map Prod.fst ++ l'.pc.hand.toList =
      l.settled.map Prod.fst ++ l.pc.hand.toList)
    (hfetched : l'.pc = .wait → l'.events = []) (hlock : l.pc ≠ .lockWait)
    (hevents : cfg.connNotifyRecvFd i ∈ l.events → cfg.connNotifyRecvFd i ∈ l'.events)
    (hguarded : l'.pc.Guarded → l.pc.Guarded) : Woken cfg acceptor i l' := by
  simp only [Prod.mk.injEq] at hqueue
  obtain ⟨hpushed, hpopped, hque⟩ := hqueue
  exact
    { guarded := fun hpc' => hmutex ▸ hl.guarded (hguarded hpc')
      guards := fun fd hfd hi => hmutex ▸ hl.guards fd hfd hi
      fetched := hfetched
      awaited := by
        intro hne
        rw [hque] at hne
        rcases hl.awaited hne with hedge' | hmem | hwait | hmutex' | hpush
        · exact Or.inl (hedge.trans hedge')
        · exact Or.inr (Or.inl (hevents hmem))
        · exact absurd hwait hlock
        · exact Or.inr (Or.inr (Or.inr (Or.inl (hmutex.trans hmutex'))))
        · exact Or.inr (Or.inr (Or.inr (Or.inr hpush)))
      order := by rw [hpushed, hpopped, hque]; exact hl.order
      handled := by rw [hpopped, hsettled]; exact hl.handled }

/-- Going on after a reading event. -/
theorem Woken.resume (hl : Woken cfg acceptor i l) (core : Reactor)
    (hhand : l.pc.hand = none) (hlock : l.pc ≠ .lockWait) :
    Woken cfg acceptor i (l.resume core) := by
  have hquiet : (l.resume core).pc ≠ .wait ∧ (l.resume core).pc.hand = none ∧
      ¬ (l.resume core).pc.Guarded := by
    rcases resume_pc l core with hpc | hpc
    · rw [hpc]
      exact ⟨Pc.noConfusion, rfl, id⟩
    · rw [hpc]
      exact ⟨Pc.noConfusion, rfl, id⟩
  refine @Woken.stay cfg acceptor i l (l.resume core) hl rfl rfl rfl ?_
    (fun hwait => absurd hwait hquiet.1) hlock id (fun hpc => absurd hpc hquiet.2.2)
  rw [hhand, hquiet.2.1]
  rfl

/-- **One step of a reactor thread.** -/
theorem LoopStep.woken {ev : LoopEvent} {sys : Syscall}
    (hst : LoopStep cfg h i l ev l' sys) (hl : Woken cfg acceptor i l) :
    Woken cfg acceptor i l' := by
  cases hst with
  | wait events hpc =>
      have hhandled := hl.handled_at hpc
      refine ⟨False.elim, hl.guards, Pc.noConfusion, ?_, hl.order, hhandled⟩
      intro hne
      rcases hl.awaited hne with hedge | hmem | hlock | hmutex | hpush
      · -- the edge is taken, or stays pending
        by_cases hmem : cfg.connNotifyRecvFd i ∈ events
        · exact Or.inr (Or.inl hmem)
        · refine Or.inl ?_
          show (l.edge && decide (cfg.connNotifyRecvFd i ∉ events)) = true
          rw [hedge, decide_eq_true hmem]
          rfl
      · rw [hl.fetched hpc] at hmem
        cases hmem
      · rw [hpc] at hlock
        cases hlock
      · exact Or.inr (Or.inr (Or.inr (Or.inl hmutex)))
      · exact Or.inr (Or.inr (Or.inr (Or.inr hpush)))
  | handled hpc hevents =>
      exact hl.stay rfl rfl rfl (by rw [hpc]; rfl) (fun _ => hevents)
        (by rw [hpc]; exact Pc.noConfusion) id False.elim
  | notified rest hpc hevents =>
      have hhandled := hl.handled_at hpc
      exact ⟨False.elim, hl.guards, Pc.noConfusion, fun _ => Or.inr (Or.inr (Or.inl rfl)),
        hl.order, hhandled⟩
  | ignored fd rest hpc hevents hconn hdata =>
      refine hl.stay rfl rfl rfl rfl ?_ (by rw [hpc]; exact Pc.noConfusion) ?_ id
      · intro hwait
        rw [hpc] at hwait
        cases hwait
      · intro hmem
        rw [hevents, List.mem_cons] at hmem
        exact hmem.resolve_left (Ne.symm hconn)
  | readable fd rest hpc hevents hconn hdata =>
      refine hl.stay rfl rfl rfl (by rw [hpc]; rfl) Pc.noConfusion
        (by rw [hpc]; exact Pc.noConfusion) ?_ False.elim
      intro hmem
      rw [hevents, List.mem_cons] at hmem
      exact hmem.resolve_left (Ne.symm hconn)
  | lock hpc hmutex =>
      have hhandled := hl.handled_at hpc
      have hfree : l.mutexConn ≠ some .acceptor := by
        rw [hmutex]
        decide
      exact ⟨fun _ => rfl, fun fd hfd hi => absurd hi (hl.unguarded hfree fd hfd),
        Pc.noConfusion, fun _ => Or.inr (Or.inr (Or.inr (Or.inl rfl))), hl.order,
        hhandled⟩
  | drained hpc hqueue =>
      have hmutex := hl.guarded (by rw [hpc]; trivial)
      have hhandled := hl.handled_at hpc
      have hours : l.mutexConn ≠ some .acceptor := by
        rw [hmutex]
        decide
      exact ⟨False.elim, fun fd hfd hi => absurd hi (hl.unguarded hours fd hfd),
        Pc.noConfusion, fun hne => absurd hqueue hne, hl.order, hhandled⟩
  | skipped fd rest hpc hqueue hneg =>
      have hmutex := hl.guarded (by rw [hpc]; trivial)
      have hhandled := hl.handled_at hpc
      refine ⟨fun _ => hmutex, hl.guards, ?_,
        fun _ => Or.inr (Or.inr (Or.inr (Or.inl hmutex))), ?_, ?_⟩
      · intro hwait
        rw [hpc] at hwait
        cases hwait
      · show l.pushed = l.popped ++ [fd] ++ rest
        rw [hl.order, hqueue, List.append_assoc]
        rfl
      · simp [hpc, Pc.hand, hhandled]
  | popped fd rest hpc hqueue hpos =>
      have hmutex := hl.guarded (by rw [hpc]; trivial)
      have hhandled := hl.handled_at hpc
      refine ⟨fun _ => hmutex, hl.guards, Pc.noConfusion,
        fun _ => Or.inr (Or.inr (Or.inr (Or.inl hmutex))), ?_, ?_⟩
      · show l.pushed = l.popped ++ [fd] ++ rest
        rw [hl.order, hqueue, List.append_assoc]
        rfl
      · simp [Pc.hand, hhandled]
  | inited fd block hpc =>
      exact hl.stay rfl rfl rfl (by rw [hpc]; rfl) Pc.noConfusion
        (by rw [hpc]; exact Pc.noConfusion) id (fun _ => by rw [hpc]; trivial)
  | nameless fd block hpc =>
      exact hl.stay rfl rfl rfl (by rw [hpc]; rfl) Pc.noConfusion
        (by rw [hpc]; exact Pc.noConfusion) id (fun _ => by rw [hpc]; trivial)
  | registered fd block hpc =>
      exact hl.stay rfl rfl rfl (by rw [hpc]; rfl) Pc.noConfusion
        (by rw [hpc]; exact Pc.noConfusion) id (fun _ => by rw [hpc]; trivial)
  | inserted fd block hpc =>
      exact hl.stay rfl rfl rfl (by simp [hpc, Pc.hand]) Pc.noConfusion
        (by rw [hpc]; exact Pc.noConfusion) id (fun _ => by rw [hpc]; trivial)
  | unknown fd o hpc =>
      exact hl.stay rfl rfl rfl (by rw [hpc]; rfl) Pc.noConfusion
        (by rw [hpc]; exact Pc.noConfusion) id False.elim
  | failed fd o e why e' hpc =>
      exact hl.stay rfl rfl rfl (by rw [hpc]; rfl) Pc.noConfusion
        (by rw [hpc]; exact Pc.noConfusion) id False.elim
  | served fd o e r hpc => exact hl.resume _ (by rw [hpc]; rfl) (by rw [hpc]; exact Pc.noConfusion)
  | sent o fd loop hpc => exact hl.resume _ (by rw [hpc]; rfl) (by rw [hpc]; exact Pc.noConfusion)
  | rejected fd hpc =>
      exact hl.stay rfl rfl rfl (by simp [hpc, Pc.hand]) Pc.noConfusion
        (by rw [hpc]; exact Pc.noConfusion) id (fun _ => by rw [hpc]; trivial)
  | orphaned fd hpc =>
      exact hl.stay rfl rfl rfl (by rw [hpc]; rfl) Pc.noConfusion
        (by rw [hpc]; exact Pc.noConfusion) id False.elim
  | closed fd why e hpc =>
      exact hl.stay rfl rfl rfl (by rw [hpc]; rfl) Pc.noConfusion
        (by rw [hpc]; exact Pc.noConfusion) id False.elim
  | erased fd why e hpc =>
      exact hl.stay rfl rfl rfl (by rw [hpc]; rfl) Pc.noConfusion
        (by rw [hpc]; exact Pc.noConfusion) id False.elim

/-- The accepting thread is busy with another reactor. -/
theorem Woken.elsewhere (hl : Woken cfg acceptor i l) {acceptor' : AcceptorPc}
    (hguards : ∀ fd, acceptor'.guards = some fd → cfg.HashGet fd ≠ i)
    (hpushed : ∀ fd, acceptor = .pushed fd → cfg.HashGet fd ≠ i) :
    Woken cfg acceptor' i l where
  guarded := hl.guarded
  guards := fun fd hfd hi => absurd hi (hguards fd hfd)
  fetched := hl.fetched
  awaited := by
    intro hne
    rcases hl.awaited hne with hedge | hmem | hlock | hmutex | ⟨fd, hpush, hi⟩
    · exact Or.inl hedge
    · exact Or.inr (Or.inl hmem)
    · exact Or.inr (Or.inr (Or.inl hlock))
    · exact Or.inr (Or.inr (Or.inr (Or.inl hmutex)))
    · exact absurd hi (hpushed fd hpush)
  order := hl.order
  handled := hl.handled

/-- `OnNewConn` takes the mutex. -/
theorem Woken.lock (hl : Woken cfg acceptor i l) {fd : Int}
    (hacceptor : acceptor = .accepted fd) (hmutex : l.mutexConn = none) :
    Woken cfg (.locked fd) i { l with mutexConn := some .acceptor } where
  guarded := by
    intro hpc
    have hheld := hl.guarded hpc
    rw [hmutex] at hheld
    cases hheld
  guards := fun _ _ _ => rfl
  fetched := hl.fetched
  awaited := by
    intro hne
    rcases hl.awaited hne with hedge | hmem | hlock | hheld | ⟨fd', hpush, -⟩
    · exact Or.inl hedge
    · exact Or.inr (Or.inl hmem)
    · exact Or.inr (Or.inr (Or.inl hlock))
    · rw [hmutex] at hheld
      cases hheld
    · rw [hacceptor] at hpush
      cases hpush
  order := hl.order
  handled := hl.handled

/-- `OnNewConn` pushes, and is about to write. -/
theorem Woken.push (hl : Woken cfg acceptor i l) {fd : Int}
    (hacceptor : acceptor = .locked fd) (hi : cfg.HashGet fd = i) :
    Woken cfg (.pushed fd) i
      { l with queConnFd := l.queConnFd ++ [fd], pushed := l.pushed ++ [fd] } where
  guarded := hl.guarded
  guards := fun _ _ _ => hl.guards fd (by rw [hacceptor]; rfl) hi
  fetched := hl.fetched
  awaited := fun _ => Or.inr (Or.inr (Or.inr (Or.inr ⟨fd, rfl, hi⟩)))
  order := by
    show l.pushed ++ [fd] = l.popped ++ (l.queConnFd ++ [fd])
    rw [hl.order, List.append_assoc]
  handled := hl.handled

/-- The write raises an edge. -/
theorem Woken.write (hl : Woken cfg acceptor i l) {fd : Int}
    (hacceptor : acceptor = .pushed fd) (hi : cfg.HashGet fd = i) :
    Woken cfg (.wrote fd) i { l with pipe := l.pipe + 1, edge := true } where
  guarded := hl.guarded
  guards := fun _ _ _ => hl.guards fd (by rw [hacceptor]; rfl) hi
  fetched := hl.fetched
  awaited := fun _ => Or.inl rfl
  order := hl.order
  handled := hl.handled

/-- `OnNewConn` gives the mutex back. -/
theorem Woken.unlock (hl : Woken cfg acceptor i l) {fd : Int}
    (hacceptor : acceptor = .wrote fd) (hi : cfg.HashGet fd = i) :
    Woken cfg .idle i { l with mutexConn := none } := by
  have hmutex := hl.guards fd (by rw [hacceptor]; rfl) hi
  refine ⟨?_, fun _ hfd => (by cases hfd), hl.fetched, ?_, hl.order, hl.handled⟩
  · intro hpc
    have hheld := hl.guarded hpc
    rw [hmutex] at hheld
    cases hheld
  · intro hne
    rcases hl.awaited hne with hedge | hmem | hlock | hheld | ⟨fd', hpush, -⟩
    · exact Or.inl hedge
    · exact Or.inr (Or.inl hmem)
    · exact Or.inr (Or.inr (Or.inl hlock))
    · rw [hmutex] at hheld
      cases hheld
    · rw [hacceptor] at hpush
      cases hpush

end Loop

/-! ## The process -/

section Process

variable {cfg : PoolCfg} {h : Host} {s s' : Pool}

/-- The accepting thread changes the reactor it is busy with. -/
theorem woken_set (hs : ∀ i, Woken cfg s.acceptor i (s.reactors i)) {fd : Int}
    {l' : LiteReactorBase} {acceptor' : AcceptorPc}
    (hguards : ∀ fd', acceptor'.guards = some fd' → fd' = fd)
    (hpushed : ∀ fd', s.acceptor = .pushed fd' → fd' = fd)
    (hl' : Woken cfg acceptor' (cfg.HashGet fd) l') (j : Nat) :
    Woken cfg acceptor' j ((s.set (cfg.HashGet fd) l').reactors j) := by
  refine Pool.set_forall (P := Woken cfg acceptor') hl' ?_ j
  intro j hj
  apply (hs j).elsewhere
  · intro fd' hfd'
    rw [hguards fd' hfd']
    exact Ne.symm hj
  · intro fd' hfd'
    rw [hpushed fd' hfd']
    exact Ne.symm hj

/-- **One step of the process**, when writes succeed. -/
theorem Woken.step {ev : PoolEvent} (hst : PoolStep cfg h s ev s')
    (hwrite : ev ≠ .write false) (hs : ∀ i, Woken cfg s.acceptor i (s.reactors i)) (i : Nat) :
    Woken cfg s'.acceptor i (s'.reactors i) := by
  cases hst with
  | declined fd hneg => exact hs i
  | accept fd hidle hpos =>
      apply (hs i).elsewhere
      · intro fd' hfd'
        cases hfd'
      · intro fd' hfd'
        rw [hidle] at hfd'
        cases hfd'
  | refused fd hpc hneg =>
      apply (hs i).elsewhere
      · intro fd' hfd'
        cases hfd'
      · intro fd' hfd'
        rw [hpc] at hfd'
        cases hfd'
  | lock fd hpc hpos hmutex =>
      refine woken_set hs ?_ ?_ ((hs _).lock hpc hmutex) i
      · intro fd' hfd'
        exact (Option.some.inj hfd').symm
      · intro fd' hfd'
        rw [hpc] at hfd'
        cases hfd'
  | push fd hpc =>
      refine woken_set hs ?_ ?_ ((hs _).push hpc rfl) i
      · intro fd' hfd'
        exact (Option.some.inj hfd').symm
      · intro fd' hfd'
        rw [hpc] at hfd'
        cases hfd'
  | write fd succeeds hpc =>
      cases succeeds with
      | false => exact absurd rfl hwrite
      | true =>
          refine woken_set hs ?_ ?_ ((hs _).write hpc rfl) i
          · intro fd' hfd'
            exact (Option.some.inj hfd').symm
          · intro fd' hfd'
            rw [hpc] at hfd'
            exact (AcceptorPc.pushed.inj hfd').symm
  | unlock fd hpc =>
      refine woken_set hs ?_ ?_ ((hs _).unlock hpc rfl) i
      · intro fd' hfd'
        cases hfd'
      · intro fd' hfd'
        rw [hpc] at hfd'
        cases hfd'
  | loop j ev l' sys hloop =>
      exact Pool.set_forall (P := Woken cfg s.acceptor) (hloop.woken (hs j))
        (fun i _ => hs i) i

/-- A step of a reactor whose descriptors are in their places settles what it
pops. -/
theorem LoopStep.fates {owner : Int → Place} {i : Nat} {l l' : LiteReactorBase}
    {epoll : Finset Int} {ev : LoopEvent} {sys : Syscall}
    (hst : LoopStep cfg h i l ev l' sys) (howned : LoopOwned cfg owner i l epoll)
    (hpos : ∀ fd, owner fd ≠ .free → 0 < fd) (hl : Fates l) : Fates l' := by
  have hsettle : ∀ fd fate, fate = .inserted ∨ fate = .closed →
      ∀ fd' fate', (fd', fate') ∈ l.settled ++ [(fd, fate)] →
        fate' = .inserted ∨ fate' = .closed := by
    intro fd fate hfate fd' fate' hmem
    rw [List.mem_append, List.mem_singleton] at hmem
    rcases hmem with hold | hnew
    · exact hl fd' fate' hold
    · exact (Prod.mk.inj hnew).2 ▸ hfate
  cases hst with
  | skipped fd rest hpc hqueue hneg =>
      have hown := (howned.queued fd).mp (hqueue ▸ List.mem_cons_self)
      exact absurd (hpos fd (by rw [hown.1]; exact Place.noConfusion)) (by omega)
  | inserted fd block hpc =>
      exact hsettle fd _ (Or.inl (if_pos (by rw [howned.absent hpc]; rfl)))
  | rejected fd hpc => exact hsettle fd _ (Or.inr rfl)
  | _ => exact hl

/-- In every reachable state of a process whose writes succeed the reactors are
woken and have settled what they popped. -/
theorem pool_woken (hwrite : cfg.writeMayFail = false) (hs : (pool cfg h).Reachable s) :
    (∀ i, Woken cfg s.acceptor i (s.reactors i)) ∧ ∀ i, Fates (s.reactors i) := by
  refine @System.invariant_of_step _ _ (pool cfg h)
    (fun s => (∀ i, Woken cfg s.acceptor i (s.reactors i)) ∧ ∀ i, Fates (s.reactors i))
    ?_ ?_ s hs
  · intro s hfresh
    refine ⟨fun i => .fresh (hfresh.reactors i) hfresh.acceptor, ?_⟩
    intro i fd fate hmem
    rw [(hfresh.reactors i).settled] at hmem
    cases hmem
  · rintro s ev s' hreach ⟨hwoken, hfates⟩ ⟨henabled, hnext⟩
    have hstep := Pool.next_cases hnext
    have hev : ev ≠ .write false := by
      rintro rfl
      rw [PoolEnabled, hwrite] at henabled
      cases henabled
    refine ⟨Woken.step hstep hev hwoken, ?_⟩
    obtain ⟨owner, howned⟩ := pool_owned hreach
    have hset : ∀ i l', Fates l' → ∀ j, Fates ((s.set i l').reactors j) :=
      fun i l' hl' => Pool.set_forall (P := fun _ l => Fates l) hl' (fun j _ => hfates j)
    cases hstep with
    | declined fd => exact hfates
    | accept fd => exact hfates
    | refused fd => exact hfates
    | lock fd => exact hset _ _ (hfates (cfg.HashGet fd))
    | push fd => exact hset _ _ (hfates (cfg.HashGet fd))
    | write fd succeeds =>
        cases succeeds with
        | true => exact hset _ _ (hfates (cfg.HashGet fd))
        | false => exact hfates
    | unlock fd => exact hset _ _ (hfates (cfg.HashGet fd))
    | loop i ev l' sys hloop =>
        have hpos : ∀ fd, owner fd ≠ .free → 0 < fd := fun fd hfd => (howned.opened fd hfd).2
        exact hset _ _ (hloop.fates (howned.loops i) hpos (hfates i))

end Process

/-- **No wake-up is lost.**  When every write to the notify pipe succeeds, in
every reachable state of the process: a reactor whose mutex is free and whose
queue is not empty has an edge pending, or holds its event, or is on its way to
`HandleNewConn`; what was pushed is what was popped and what still waits, in
order; and each descriptor popped is in hand, or was inserted, or was closed. -/
theorem no_lost_wakeup (cfg : PoolCfg) (h : Host) (hwrite : cfg.writeMayFail = false)
    (s : Pool) (hs : (pool cfg h).Reachable s) (i : Nat) :
    ((s.reactors i).mutexConn = none → (s.reactors i).queConnFd ≠ [] →
      (s.reactors i).edge = true ∨ cfg.connNotifyRecvFd i ∈ (s.reactors i).events ∨
        (s.reactors i).pc = .lockWait) ∧
    (s.reactors i).pushed = (s.reactors i).popped ++ (s.reactors i).queConnFd ∧
    (s.reactors i).popped =
      (s.reactors i).settled.map Prod.fst ++ (s.reactors i).pc.hand.toList ∧
    ∀ fd fate, (fd, fate) ∈ (s.reactors i).settled → fate = .inserted ∨ fate = .closed := by
  obtain ⟨hwoken, hfates⟩ := pool_woken hwrite hs
  have hi := hwoken i
  refine ⟨?_, hi.order, hi.handled, hfates i⟩
  intro hmutex hne
  rcases hi.awaited hne with hedge | hmem | hlock | hheld | ⟨fd, hpush, hfd⟩
  · exact Or.inl hedge
  · exact Or.inr (Or.inl hmem)
  · exact Or.inr (Or.inr hlock)
  · rw [hmutex] at hheld
    cases hheld
  · -- who is about to write has the mutex
    have hheld := hi.guards fd (by rw [hpush]; rfl) hfd
    rw [hmutex] at hheld
    cases hheld

/-- One descriptor handed over: it waits in the queue with the edge pending. -/
theorem no_lost_wakeup_one_connection :
    ∃ s : Pool, (s.reactors 0).queConnFd = [5] ∧ (s.reactors 0).mutexConn = none ∧
      ((s.reactors 0).edge = true ∨ (3 : Int) ∈ (s.reactors 0).events ∨
        (s.reactors 0).pc = .lockWait) := by
  obtain ⟨s₁, hs₁, hpushed, -, hl₁⟩ := @accept_and_push (.single none) .x86_64 .boot 5
    (.init (Pool.boot_fresh none)) rfl (by decide) (by decide) rfl
  obtain ⟨s₂, hs₂, -, -, hl₂⟩ := write_and_unlock hs₁ hpushed (fun k hk => by cases hk)
  rw [hl₁] at hl₂
  have hqueue : (s₂.reactors 0).queConnFd = [5] := congrArg LiteReactorBase.queConnFd hl₂
  have hmutex : (s₂.reactors 0).mutexConn = none := congrArg LiteReactorBase.mutexConn hl₂
  refine ⟨s₂, hqueue, hmutex, ?_⟩
  exact (no_lost_wakeup (.single none) .x86_64 rfl s₂ hs₂ 0).1 hmutex
    (by rw [hqueue]; exact List.cons_ne_nil 5 [])

end MyGenSvr.Ports
