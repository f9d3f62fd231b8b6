import MyGenSvr.Ports.WakeUp

/-!
# The notify pipe

`OnNewConn` writes one byte for every connection it hands over, and
`HandleNewConn` reads none.  A pipe that holds `k` bytes is full after `k`
connections; the write for the next one blocks with the mutex held, and nothing
that either thread can do makes room.

## Main results

* `handoff_deadlock_iff` — a reactor is deadlocked exactly when more connections
  were pushed for it than its notify pipe holds bytes.
* `deadlock_reachable` — which happens whatever the capacity is.
-/

namespace MyGenSvr.Ports

open MyGenSvr.Verified.Transition

/-- The accepting thread stands before the write to reactor `i`. -/
def AcceptorPc.Writing (cfg : PoolCfg) (acceptor : AcceptorPc) (i : Nat) : Prop :=
  ∃ fd, acceptor = .pushed fd ∧ cfg.HashGet fd = i

/-- `OnNewConn` is blocked in the write to the full pipe of reactor `i`, with the
mutex held. -/
structure Blocked (cfg : PoolCfg) (k : Nat) (s : Pool) (i : Nat) : Prop where
  writing : s.acceptor.Writing cfg i
  full : k ≤ (s.reactors i).pipe
  held : (s.reactors i).mutexConn = some .acceptor

/-- It is blocked for good: no step of any thread makes room. -/
def Deadlocked (cfg : PoolCfg) (h : Host) (k : Nat) (s : Pool) (i : Nat) : Prop :=
  ∀ es s', (pool cfg h).Run s es s' → Blocked cfg k s' i

/-- Every connection that was pushed for reactor `i` has its byte in the pipe,
but for the one whose write is pending; and the pipe holds what fits. -/
structure PipeCounts (cfg : PoolCfg) (k : Nat) (acceptor : AcceptorPc) (i : Nat)
    (l : LiteReactorBase) : Prop where
  fits : l.pipe ≤ k
  writing : acceptor.Writing cfg i → l.pushed.length = l.pipe + 1
  written : ¬ acceptor.Writing cfg i → l.pushed.length = l.pipe

section Process

variable {cfg : PoolCfg} {h : Host} {k : Nat} {s s' : Pool}

theorem not_writing {acceptor : AcceptorPc} (hpc : ∀ fd, acceptor ≠ .pushed fd) (i : Nat) :
    ¬ acceptor.Writing cfg i := by
  rintro ⟨fd, hfd, -⟩
  exact hpc fd hfd

theorem writing_iff {fd : Int} {i : Nat} :
    AcceptorPc.Writing cfg (.pushed fd) i ↔ cfg.HashGet fd = i := by
  constructor
  · rintro ⟨fd', hfd', hi⟩
    exact AcceptorPc.pushed.inj hfd' ▸ hi
  · intro hi
    exact ⟨fd, rfl, hi⟩

/-- The counts of a reactor stay when the accepting thread is not writing to it. -/
theorem PipeCounts.quiet {acceptor acceptor' : AcceptorPc} {i : Nat}
    {l l' : LiteReactorBase} (hl : PipeCounts cfg k acceptor i l)
    (hbefore : ¬ acceptor.Writing cfg i) (hafter : ¬ acceptor'.Writing cfg i)
    (hpushed : l'.pushed = l.pushed) (hpipe : l'.pipe = l.pipe) :
    PipeCounts cfg k acceptor' i l' where
  fits := hpipe ▸ hl.fits
  writing := fun hwriting => absurd hwriting hafter
  written := fun _ => by rw [hpushed, hpipe]; exact hl.written hbefore

/-- The accepting thread leaves the pipes alone at this step. -/
theorem pipeCounts_quiet (hs : ∀ i, PipeCounts cfg k s.acceptor i (s.reactors i))
    {j : Nat} {l' : LiteReactorBase} {acceptor' : AcceptorPc}
    (hbefore : ∀ fd, s.acceptor ≠ .pushed fd) (hafter : ∀ fd, acceptor' ≠ .pushed fd)
    (hpushed : l'.pushed = (s.reactors j).pushed) (hpipe : l'.pipe = (s.reactors j).pipe)
    (i : Nat) : PipeCounts cfg k acceptor' i ((s.set j l').reactors i) := by
  refine Pool.set_forall (P := PipeCounts cfg k acceptor') ?_ (fun i _ => ?_) i
  · exact (hs j).quiet (not_writing hbefore j) (not_writing hafter j) hpushed hpipe
  · exact (hs i).quiet (not_writing hbefore i) (not_writing hafter i) rfl rfl

/-- **One step of the process**, when writes block and do not fail. -/
theorem PipeCounts.step {ev : PoolEvent} (hst : PoolStep cfg h s ev s')
    (henabled : PoolEnabled cfg s ev) (hcap : cfg.capacity = some k)
    (hwrite : cfg.writeMayFail = false)
    (hs : ∀ i, PipeCounts cfg k s.acceptor i (s.reactors i)) (i : Nat) :
    PipeCounts cfg k s'.acceptor i (s'.reactors i) := by
  cases hst with
  | declined fd hneg => exact hs i
  | accept fd hidle hpos =>
      refine (hs i).quiet (not_writing ?_ i) (not_writing ?_ i) rfl rfl
      · rw [hidle]
        exact fun _ => AcceptorPc.noConfusion
      · exact fun _ => AcceptorPc.noConfusion
  | refused fd hpc hneg =>
      refine (hs i).quiet (not_writing ?_ i) (not_writing ?_ i) rfl rfl
      · rw [hpc]
        exact fun _ => AcceptorPc.noConfusion
      · exact fun _ => AcceptorPc.noConfusion
  | lock fd hpc hpos hmutex =>
      refine pipeCounts_quiet hs ?_ ?_ ?_ ?_ i
      · rw [hpc]
        exact fun _ => AcceptorPc.noConfusion
      · exact fun _ => AcceptorPc.noConfusion
      · rfl
      · rfl
  | push fd hpc =>
      have hidle : ∀ i, ¬ s.acceptor.Writing cfg i := by
        apply not_writing
        rw [hpc]
        exact fun _ => AcceptorPc.noConfusion
      refine Pool.set_forall (P := PipeCounts cfg k (.pushed fd)) ?_ (fun i hi => ?_) i
      · refine ⟨(hs _).fits, fun _ => ?_, fun hn => absurd (writing_iff.mpr rfl) hn⟩
        rw [List.length_append, (hs _).written (hidle _)]
        rfl
      · exact (hs i).quiet (hidle i) (fun hw => hi (writing_iff.mp hw).symm) rfl rfl
  | write fd succeeds hpc =>
      cases succeeds with
      | false =>
          rw [PoolEnabled, hwrite] at henabled
          cases henabled
      | true =>
          have hroom := henabled fd k hpc hcap
          have hafter : ∀ i, ¬ AcceptorPc.Writing cfg (.wrote fd) i :=
            not_writing (fun _ => AcceptorPc.noConfusion)
          rw [hpc] at hs
          refine Pool.set_forall (P := PipeCounts cfg k (.wrote fd)) ?_ (fun i hi => ?_) i
          · exact ⟨hroom, fun hw => absurd hw (hafter _),
              fun _ => (hs _).writing (writing_iff.mpr rfl)⟩
          · exact (hs i).quiet (fun hw => hi (writing_iff.mp hw).symm) (hafter i) rfl rfl
  | unlock fd hpc =>
      refine pipeCounts_quiet hs ?_ ?_ ?_ ?_ i
      · rw [hpc]
        exact fun _ => AcceptorPc.noConfusion
      · exact fun _ => AcceptorPc.noConfusion
      · rfl
      · rfl
  | loop j ev l' sys hloop =>
      obtain ⟨hpushed, hpipe⟩ := hloop.pipe
      refine Pool.set_forall (P := PipeCounts cfg k s.acceptor) ?_ (fun i _ => hs i) i
      exact ⟨hpipe ▸ (hs j).fits, by rw [hpushed, hpipe]; exact (hs j).writing,
        by rw [hpushed, hpipe]; exact (hs j).written⟩

theorem pool_pipeCounts (hcap : cfg.capacity = some k) (hwrite : cfg.writeMayFail = false)
    (hs : (pool cfg h).Reachable s) (i : Nat) :
    PipeCounts cfg k s.acceptor i (s.reactors i) := by
  revert i
  refine @System.invariant_of_step _ _ (pool cfg h)
    (fun s => ∀ i, PipeCounts cfg k s.acceptor i (s.reactors i)) ?_ ?_ s hs
  · intro s hfresh i
    obtain ⟨-, -, -, hpipe, -, -, -, hpushed, -, -⟩ := hfresh.reactors i
    have hidle : ¬ s.acceptor.Writing cfg i := by
      apply not_writing
      rw [hfresh.acceptor]
      exact fun _ => AcceptorPc.noConfusion
    exact ⟨by rw [hpipe]; exact Nat.zero_le k, fun hw => absurd hw hidle,
      fun _ => by rw [hpipe, hpushed]; rfl⟩
  · rintro s ev s' - hs ⟨henabled, hnext⟩
    exact PipeCounts.step (Pool.next_cases hnext) henabled hcap hwrite hs

/-- What was pushed stays pushed. -/
theorem step_pushed {ev : PoolEvent} (hst : (pool cfg h).step s ev s') (i : Nat) :
    (s.reactors i).pushed.length ≤ (s'.reactors i).pushed.length := by
  have hset : ∀ j l', (s.reactors j).pushed.length ≤ l'.pushed.length →
      (s.reactors i).pushed.length ≤ ((s.set j l').reactors i).pushed.length :=
    fun j l' hle => Pool.set_forall
      (P := fun i l => (s.reactors i).pushed.length ≤ l.pushed.length) hle
      (fun _ _ => Nat.le_refl _) i
  cases Pool.next_cases hst.2 with
  | declined fd => exact Nat.le_refl _
  | accept fd => exact Nat.le_refl _
  | refused fd => exact Nat.le_refl _
  | lock fd => exact hset _ _ (Nat.le_refl _)
  | push fd =>
      apply hset
      rw [List.length_append]
      exact Nat.le_add_right _ _
  | write fd succeeds =>
      cases succeeds with
      | true => exact hset _ _ (Nat.le_refl _)
      | false => exact Nat.le_refl _
  | unlock fd => exact hset _ _ (Nat.le_refl _)
  | loop j ev l' sys hloop => exact hset _ _ (by rw [hloop.pipe.1])

theorem pushed_mono {es : List PoolEvent} (hrun : (pool cfg h).Run s es s') (i : Nat) :
    (s.reactors i).pushed.length ≤ (s'.reactors i).pushed.length := by
  induction hrun with
  | nil => exact Nat.le_refl _
  | snoc _ hlast ih => exact ih.trans (step_pushed hlast i)

/-- One connection more than the pipe holds blocks the accepting thread. -/
theorem blocked_of_pushed (hcap : cfg.capacity = some k) (hwrite : cfg.writeMayFail = false)
    (hs : (pool cfg h).Reachable s) {i : Nat} (hmore : k < (s.reactors i).pushed.length) :
    Blocked cfg k s i := by
  have hcounts := pool_pipeCounts hcap hwrite hs i
  have hfits := hcounts.fits
  by_cases hwriting : s.acceptor.Writing cfg i
  · have hcount := hcounts.writing hwriting
    refine ⟨hwriting, by omega, ?_⟩
    obtain ⟨fd, hfd, hi⟩ := hwriting
    exact ((pool_woken hwrite hs).1 i).guards fd (by rw [hfd]; rfl) hi
  · have hcount := hcounts.written hwriting
    omega

theorem deadlocked_of_pushed (hcap : cfg.capacity = some k)
    (hwrite : cfg.writeMayFail = false) (hs : (pool cfg h).Reachable s) {i : Nat}
    (hmore : k < (s.reactors i).pushed.length) : Deadlocked cfg h k s i := by
  intro es s' hrun
  exact blocked_of_pushed hcap hwrite (hs.run hrun)
    (Nat.lt_of_lt_of_le hmore (pushed_mono hrun i))

end Process

/-! ## Deadlocks -/

/-- Connections that fit the pipe are handed over while the reactor sleeps. -/
theorem handed_over (h : Host) (k : Nat) {m : Nat} (hm : m ≤ k) :
    ∃ s, (pool (.single (some k)) h).Reachable s ∧ s.acceptor = .idle ∧
      (s.reactors 0).mutexConn = none ∧ (s.reactors 0).pipe = m ∧
      (s.reactors 0).pushed.length = m := by
  induction m with
  | zero => exact ⟨.boot, .init (Pool.boot_fresh _), rfl, rfl, rfl, rfl⟩
  | succ m ih =>
      obtain ⟨s, hs, hidle, hmutex, hpipe, hpushed⟩ := ih (by omega)
      obtain ⟨fd, hpos, hnew⟩ := exists_new_fd s.kernel.openFds
      have hhash : (PoolCfg.single (some k)).HashGet fd = 0 := single_HashGet _ fd
      obtain ⟨s₁, hs₁, hacc₁, -, hl₁⟩ := accept_and_push hs hidle hpos hnew (by rw [hhash, hmutex])
      rw [hhash] at hl₁
      obtain ⟨s₂, hs₂, hacc₂, -, hl₂⟩ := write_and_unlock hs₁ hacc₁ (by
        rintro k' hk'
        cases hk'
        rw [hhash, hl₁]
        show (s.reactors 0).pipe < k
        omega)
      rw [hhash, hl₁] at hl₂
      refine ⟨s₂, hs₂, hacc₂, by rw [hl₂], ?_, ?_⟩
      · rw [hl₂]
        show (s.reactors 0).pipe + 1 = m + 1
        rw [hpipe]
      · rw [hl₂]
        show ((s.reactors 0).pushed ++ [fd]).length = m + 1
        rw [List.length_append, hpushed]
        rfl

/-- **Whatever the pipe holds**, one connection more deadlocks the hand-over. -/
theorem deadlock_reachable (h : Host) (k : Nat) :
    ∃ s, (pool (.single (some k)) h).Reachable s ∧
      Deadlocked (.single (some k)) h k s 0 := by
  obtain ⟨s, hs, hidle, hmutex, -, hpushed⟩ := handed_over h k (Nat.le_refl k)
  obtain ⟨fd, hpos, hnew⟩ := exists_new_fd s.kernel.openFds
  have hhash : (PoolCfg.single (some k)).HashGet fd = 0 := single_HashGet _ fd
  obtain ⟨s₁, hs₁, -, -, hl₁⟩ := accept_and_push hs hidle hpos hnew (by rw [hhash, hmutex])
  rw [hhash] at hl₁
  refine ⟨s₁, hs₁, deadlocked_of_pushed rfl rfl hs₁ ?_⟩
  rw [hl₁]
  show k < ((s.reactors 0).pushed ++ [fd]).length
  rw [List.length_append, hpushed]
  exact Nat.lt_succ_self k

/-- **Deadlock.**  When writes to the notify pipe block and do not fail, reactor
`i` is deadlocked exactly when more connections were pushed for it than its pipe
holds bytes. -/
theorem handoff_deadlock_iff (cfg : PoolCfg) (h : Host) (k : Nat)
    (hcap : cfg.capacity = some k) (hwrite : cfg.writeMayFail = false) (s : Pool)
    (hs : (pool cfg h).Reachable s) (i : Nat) :
    Deadlocked cfg h k s i ↔ k < (s.reactors i).pushed.length := by
  constructor
  · intro hdead
    have hblocked := hdead [] s (.nil s)
    have hcount := (pool_pipeCounts hcap hwrite hs i).writing hblocked.writing
    have hfull := hblocked.full
    omega
  · exact deadlocked_of_pushed hcap hwrite hs

/-- Two connections, and a pipe that holds one byte. -/
theorem two_connections :
    ∃ s, (pool (.single (some 1)) .x86_64).Reachable s ∧ (s.reactors 0).pushed = [5, 6] := by
  obtain ⟨s₁, hs₁, hacc₁, hopen₁, hl₁⟩ := @accept_and_push (.single (some 1)) .x86_64 .boot 5
    (.init (Pool.boot_fresh _)) rfl (by decide) (by decide) rfl
  obtain ⟨s₂, hs₂, hacc₂, hkernel₂, hl₂⟩ := write_and_unlock hs₁ hacc₁ (by
    rintro k hk
    cases hk
    rw [hl₁]
    decide)
  have hnew : (6 : Int) ∉ s₂.kernel.openFds := by
    rw [hkernel₂, hopen₁]
    decide
  rw [hl₁] at hl₂
  have hmutex : (s₂.reactors ((PoolCfg.single (some 1)).HashGet 6)).mutexConn = none :=
    congrArg LiteReactorBase.mutexConn hl₂
  obtain ⟨s₃, hs₃, -, -, hl₃⟩ := accept_and_push hs₂ hacc₂ (by decide) hnew hmutex
  refine ⟨s₃, hs₃, ?_⟩
  have hpushed : (s₂.reactors 0).pushed = [5] := congrArg LiteReactorBase.pushed hl₂
  have hlast : (s₃.reactors 0).pushed = (s₂.reactors 0).pushed ++ [6] :=
    congrArg LiteReactorBase.pushed hl₃
  rw [hlast, hpushed]
  rfl

/-- With the second connection the reactor is deadlocked. -/
theorem handoff_deadlock_iff_two_connections :
    ∃ s, (s.reactors 0).pushed = [5, 6] ∧ Deadlocked (.single (some 1)) .x86_64 1 s 0 := by
  obtain ⟨s, hs, hpushed⟩ := two_connections
  refine ⟨s, hpushed, (handoff_deadlock_iff _ .x86_64 1 rfl rfl s hs 0).mpr ?_⟩
  rw [hpushed]
  decide

/-- **The hand-over can deadlock.** -/
theorem handoff_deadlocks :
    ¬ ∀ (cfg : PoolCfg) (h : Host) (k : Nat), 0 < k → cfg.capacity = some k →
      cfg.writeMayFail = false → ∀ s, (pool cfg h).Reachable s →
      ∀ i, ¬ Deadlocked cfg h k s i := by
  intro hall
  obtain ⟨s, hs, hpushed⟩ := two_connections
  refine hall (.single (some 1)) .x86_64 1 (by decide) rfl rfl s hs 0
    (deadlocked_of_pushed rfl rfl hs ?_)
  rw [hpushed]
  decide

end MyGenSvr.Ports
