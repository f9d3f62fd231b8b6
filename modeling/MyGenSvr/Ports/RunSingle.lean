import MyGenSvr.Ports.Log
import MyGenSvr.Verified.PartialMap
import MyGenSvr.Verified.Transition

/-!
# One instance

`run_single` keeps a second instance of the program from starting: it opens the pid file
of the program in the working directory, locks it with `F_SETLK` and writes its pid into
it.  Any number of processes do so next to each other, one system call at a time, and any
of them may die between two calls.  The kernel gives a lock back when its holder dies; no
process closes the file before.

## Main results

* `single_instance` — of the processes with one pid file at most one gets past
  `run_single`, and the lock is taken exactly while a live process is past it.
* `pid_file_names_instance` — the pid file holds the pid of the instance that runs,
  whatever other instances try.
-/

namespace MyGenSvr.Ports

open MyGenSvr.Verified.PartialMap
open MyGenSvr.Verified.Transition

/-- The last part of a path. -/
def basename (path : List UInt8) : List UInt8 :=
  (path.reverse.takeWhile fun c => c ≠ ch '/').reverse

/-- The name of the pid file; `none` where it overflows `szFileName`. -/
def pidFileName (appname : List UInt8) : Option (List UInt8) :=
  let name := bytes "./" ++ basename appname ++ bytes ".pid"
  if name.length < 1024 then some name else none

/-- What is written into the pid file. -/
def pidText (pid : Nat) : List UInt8 := (decimal pid ++ bytes "\n").take 1023

/-- A pid file: the working directory of the process and the name in it. -/
structure PidFile where
  cwd : List UInt8
  name : List UInt8
  deriving DecidableEq, Repr

/-- Where a process stands in `run_single`: before a system call, or at its end. -/
inductive SinglePc where
  | open
  | lock
  | ftruncate
  | write
  | returned (iRet : Int)
  deriving DecidableEq, Repr

/-- The process has the lock. -/
def SinglePc.Locked : SinglePc → Prop
  | .open | .lock => False
  | .ftruncate | .write => True
  | .returned iRet => iRet = 0

/-- A process that runs. -/
structure Instance where
  file : PidFile
  pc : SinglePc
  deriving DecidableEq, Repr

/-- The processes by pid, the contents of the pid files and the holders of their locks. -/
structure SingleState where
  procs : Nat → Option Instance
  disk : PidFile → Option (List UInt8)
  locks : PidFile → Option Nat

/-- What can happen. -/
inductive SingleEvent where
  /-- A program is started in a working directory. -/
  | start (pid : Nat) (cwd appname : List UInt8)
  | open (pid : Nat) (succeeds : Bool)
  | lock (pid : Nat) (granted : Bool)
  | ftruncate (pid : Nat) (succeeds : Bool)
  /-- `write`, of so many bytes. -/
  | write (pid : Nat) (n : Nat)
  /-- A process ends, by itself or not. -/
  | exit (pid : Nat)
  deriving DecidableEq, Repr

/-- A process moves on. -/
def SingleState.goto (m : SingleState) (pid : Nat) (p : Instance) (pc : SinglePc) : SingleState :=
  { m with procs := Function.update m.procs pid (some { p with pc := pc }) }

/-- The contents of a pid file change. -/
def SingleState.put (m : SingleState) (f : PidFile) (contents : List UInt8) : SingleState :=
  { m with disk := Function.update m.disk f (some contents) }

/-- The state after an event; `none` where the process is not there, or where the name of
the pid file overflows its buffer. -/
def SingleState.next (m : SingleState) : SingleEvent → Option SingleState
  | .start pid cwd appname =>
      (pidFileName appname).map fun name =>
        { m with procs := Function.update m.procs pid (some ⟨⟨cwd, name⟩, .open⟩) }
  | .open pid succeeds =>
      match m.procs pid with
      | some ⟨f, .open⟩ =>
          if succeeds then some ((m.put f ((m.disk f).getD [])).goto pid ⟨f, .open⟩ .lock)
          else some (m.goto pid ⟨f, .open⟩ (.returned (-1)))
      | _ => none
  | .lock pid granted =>
      match m.procs pid with
      | some ⟨f, .lock⟩ =>
          if granted then
            some ({ m with locks := Function.update m.locks f (some pid) }.goto pid ⟨f, .lock⟩
              .ftruncate)
          else some (m.goto pid ⟨f, .lock⟩ (.returned (-1)))
      | _ => none
  | .ftruncate pid succeeds =>
      match m.procs pid with
      | some ⟨f, .ftruncate⟩ =>
          some ((if succeeds then m.put f [] else m).goto pid ⟨f, .ftruncate⟩ .write)
      | _ => none
  | .write pid n =>
      match m.procs pid with
      | some ⟨f, .write⟩ =>
          -- the offset is still that of `open`
          let contents := (m.disk f).getD []
          some ((m.put f ((pidText pid).take n ++ contents.drop n)).goto pid ⟨f, .write⟩
            (.returned 0))
      | _ => none
  | .exit pid =>
      (m.procs pid).map fun _ =>
        { m with
          procs := Function.update m.procs pid none
          locks := fun f => if m.locks f = some pid then none else m.locks f }

/-- What the kernel can answer: a new process has a pid of its own, which fits a `pid_t`, and
a lock that another process holds is not granted.  `ioMayFail` says whether `ftruncate` and
`write` can fail. -/
def SingleEnabled (ioMayFail : Bool) (m : SingleState) : SingleEvent → Prop
  | .start pid _ _ => m.procs pid = none ∧ pid < 2 ^ 31
  | .lock pid true => ∀ p, m.procs pid = some p → m.locks p.file = none ∨ m.locks p.file = some pid
  | .ftruncate _ false => ioMayFail = true
  | .write pid n => n ≤ (pidText pid).length ∧ (ioMayFail = false → n = (pidText pid).length)
  | _ => True

/-- The runs of a machine on which no such program runs yet, whatever files are there. -/
def singles (ioMayFail : Bool) : System SingleState SingleEvent where
  init m := (∀ pid, m.procs pid = none) ∧ ∀ f, m.locks f = none
  step m ev m' := SingleEnabled ioMayFail m ev ∧ m.next ev = some m'

/-! ## What a step can do -/

/-- **All that one step can do.** -/
inductive SingleStep (m : SingleState) : SingleEvent → SingleState → Prop where
  | start (pid : Nat) (cwd appname name : List UInt8) : m.procs pid = none → pid < 2 ^ 31 →
      pidFileName appname = some name →
      SingleStep m (.start pid cwd appname)
        { m with procs := Function.update m.procs pid (some ⟨⟨cwd, name⟩, .open⟩) }
  | opened (pid : Nat) (f : PidFile) : m.procs pid = some ⟨f, .open⟩ →
      SingleStep m (.open pid true)
        ((m.put f ((m.disk f).getD [])).goto pid ⟨f, .open⟩ .lock)
  | failed (pid : Nat) (f : PidFile) (pc : SinglePc) (ev : SingleEvent) :
      m.procs pid = some ⟨f, pc⟩ → ¬pc.Locked →
      SingleStep m ev (m.goto pid ⟨f, pc⟩ (.returned (-1)))
  | locked (pid : Nat) (f : PidFile) : m.procs pid = some ⟨f, .lock⟩ →
      m.locks f = none ∨ m.locks f = some pid →
      SingleStep m (.lock pid true)
        ({ m with locks := Function.update m.locks f (some pid) }.goto pid ⟨f, .lock⟩ .ftruncate)
  | emptied (pid : Nat) (f : PidFile) (succeeds : Bool) :
      m.procs pid = some ⟨f, .ftruncate⟩ →
      SingleStep m (.ftruncate pid succeeds)
        ((if succeeds then m.put f [] else m).goto pid ⟨f, .ftruncate⟩ .write)
  | written (pid : Nat) (f : PidFile) (n : Nat) : m.procs pid = some ⟨f, .write⟩ →
      SingleStep m (.write pid n)
        ((m.put f ((pidText pid).take n ++ ((m.disk f).getD []).drop n)).goto pid ⟨f, .write⟩
          (.returned 0))
  | exit (pid : Nat) (p : Instance) : m.procs pid = some p →
      SingleStep m (.exit pid)
        { m with
          procs := Function.update m.procs pid none
          locks := fun f => if m.locks f = some pid then none else m.locks f }

section Inversion

variable {ioMayFail : Bool} {m m' : SingleState}

/-- **The step inversion.** -/
theorem SingleState.next_cases {ev : SingleEvent} (hst : (singles ioMayFail).step m ev m') :
    SingleStep m ev m' := by
  obtain ⟨henabled, hnext⟩ := hst
  cases ev with
  | start pid cwd appname =>
      obtain ⟨name, hname, rfl⟩ := Option.map_eq_some_iff.mp hnext
      exact .start pid cwd appname name henabled.1 henabled.2 hname
  | «open» pid succeeds =>
      simp only [SingleState.next] at hnext
      split at hnext
      · rename_i f hproc
        cases succeeds with
        | true =>
            rw [if_pos rfl, Option.some.injEq] at hnext
            exact hnext ▸ .opened pid f hproc
        | false =>
            rw [if_neg Bool.false_ne_true, Option.some.injEq] at hnext
            exact hnext ▸ .failed pid f .open _ hproc id
      · cases hnext
  | lock pid granted =>
      simp only [SingleState.next] at hnext
      split at hnext
      · rename_i f hproc
        cases granted with
        | true =>
            rw [if_pos rfl, Option.some.injEq] at hnext
            exact hnext ▸ .locked pid f hproc (henabled _ hproc)
        | false =>
            rw [if_neg Bool.false_ne_true, Option.some.injEq] at hnext
            exact hnext ▸ .failed pid f .lock _ hproc id
      · cases hnext
  | ftruncate pid succeeds =>
      simp only [SingleState.next] at hnext
      split at hnext
      · rename_i f hproc
        rw [Option.some.injEq] at hnext
        exact hnext ▸ .emptied pid f succeeds hproc
      · cases hnext
  | write pid n =>
      simp only [SingleState.next] at hnext
      split at hnext
      · rename_i f hproc
        rw [Option.some.injEq] at hnext
        exact hnext ▸ .written pid f n hproc
      · cases hnext
  | exit pid =>
      obtain ⟨p, hproc, rfl⟩ := Option.map_eq_some_iff.mp hnext
      exact .exit pid p hproc

end Inversion

/-! ## Who has the lock -/

/-- A live process is past the lock of a pid file. -/
def Past (procs : Nat → Option Instance) (f : PidFile) (pid : Nat) : Prop :=
  ∃ p, procs pid = some p ∧ p.file = f ∧ p.pc.Locked

/-- The lock of a pid file is taken exactly by the live process past it. -/
def SingleState.LocksHeld (m : SingleState) : Prop :=
  ∀ f pid, m.locks f = some pid ↔ Past m.procs f pid

section Locks

variable {ioMayFail : Bool} {m m' : SingleState}

/-- Who is past the lock once one process has changed. -/
theorem past_update {procs : Nat → Option Instance} {pid : Nat} {p : Instance} {f : PidFile}
    {pid' : Nat} : Past (Function.update procs pid (some p)) f pid' ↔
      (pid' = pid ∧ p.file = f ∧ p.pc.Locked) ∨ (pid' ≠ pid ∧ Past procs f pid') := by
  by_cases hpid : pid' = pid
  · subst hpid
    simp [Past]
  · simp [Past, hpid]

theorem past_self {procs : Nat → Option Instance} {pid : Nat} {p : Instance}
    (hp : procs pid = some p) (f : PidFile) : Past procs f pid ↔ p.file = f ∧ p.pc.Locked := by
  simp [Past, hp]

/-- Two processes past the lock of one file are one. -/
theorem SingleState.LocksHeld.unique (h : m.LocksHeld) {f : PidFile} {pid pid' : Nat}
    (hpast : Past m.procs f pid) (hpast' : Past m.procs f pid') : pid = pid' :=
  Option.some.inj (((h f pid).mpr hpast).symm.trans ((h f pid').mpr hpast'))

/-- A step of a process that neither takes nor loses the lock. -/
theorem SingleState.LocksHeld.goto (h : m.LocksHeld) {pid : Nat} {p : Instance}
    (hp : m.procs pid = some p) {pc : SinglePc} (hpc : pc.Locked ↔ p.pc.Locked) :
    (m.goto pid p pc).LocksHeld := by
  intro f pid'
  show m.locks f = some pid' ↔ Past (Function.update _ _ _) f pid'
  rw [h f pid', past_update]
  by_cases hpid : pid' = pid
  · subst hpid
    rw [past_self hp]
    simp [hpc]
  · simp [hpid]

/-- **One step keeps the locks.** -/
theorem SingleStep.locksHeld {ev : SingleEvent} (hst : SingleStep m ev m') (h : m.LocksHeld) :
    m'.LocksHeld := by
  cases hst with
  | start pid cwd appname name hnew =>
      intro f pid'
      show m.locks f = some pid' ↔ Past (Function.update _ _ _) f pid'
      rw [h f pid', past_update]
      by_cases hpid : pid' = pid
      · subst hpid
        simp [Past, hnew, SinglePc.Locked]
      · simp [hpid]
  | opened pid f hproc => exact SingleState.LocksHeld.goto (m := m.put f _) h hproc Iff.rfl
  | failed pid f pc _ hproc hpc =>
      refine h.goto hproc (iff_of_false ?_ hpc)
      show ¬(-1 : Int) = 0
      decide
  | locked pid f hproc hfree =>
      intro f' pid'
      show Function.update m.locks f (some pid) f' = some pid' ↔
        Past (Function.update _ _ _) f' pid'
      rw [past_update]
      by_cases hfile : f' = f
      · subst hfile
        rw [Function.update_self, Option.some.injEq]
        constructor
        · rintro rfl
          exact Or.inl ⟨rfl, rfl, trivial⟩
        · rintro (⟨rfl, -⟩ | ⟨hne, hpast⟩)
          · rfl
          · -- the lock was free, or of the process itself
            have hheld := (h f' pid').mpr hpast
            rcases hfree with hnone | hown
            · rw [hnone] at hheld
              cases hheld
            · exact Option.some.inj (hown.symm.trans hheld)
      · rw [Function.update_of_ne hfile, h f' pid']
        by_cases hpid : pid' = pid
        · subst hpid
          rw [past_self hproc]
          simp [Ne.symm hfile]
        · simp [hpid]
  | emptied pid f succeeds hproc =>
      cases succeeds with
      | true => exact SingleState.LocksHeld.goto (m := m.put f []) h hproc Iff.rfl
      | false => exact h.goto hproc Iff.rfl
  | written pid f n hproc =>
      exact SingleState.LocksHeld.goto (m := m.put f _) h hproc (iff_of_true rfl trivial)
  | exit pid p hproc =>
      intro f pid'
      show (if m.locks f = some pid then none else m.locks f) = some pid' ↔
        Past (Function.update m.procs pid none) f pid'
      by_cases hpid : pid' = pid
      · subst hpid
        simp [Past]
      · have hsame : Past (Function.update m.procs pid none) f pid' ↔ Past m.procs f pid' := by
          simp [Past, hpid]
        rw [hsame, ← h f pid']
        by_cases hown : m.locks f = some pid
        · simp [hown, Ne.symm hpid]
        · simp [hown]

theorem singles_locksHeld (hm : (singles ioMayFail).Reachable m) : m.LocksHeld := by
  refine System.invariant_of_step (P := SingleState.LocksHeld) ?_ ?_ hm
  · rintro m ⟨hprocs, hlocks⟩ f pid
    rw [hlocks f]
    simp [Past, hprocs pid]
  · intro m ev m' _ h hst
    exact (SingleState.next_cases hst).locksHeld h

end Locks

/-- **One instance at a time.**  In every state that any number of processes reach, whatever
calls fail and whichever processes die: of those with one pid file at most one has been let
past `run_single`; and a pid file whose lock is taken has a live process past the lock, so
that a dead one never keeps the program from starting. -/
theorem single_instance (ioMayFail : Bool) (m : SingleState)
    (hm : (singles ioMayFail).Reachable m) :
    (∀ pid pid' p p', m.procs pid = some p → m.procs pid' = some p' → p.file = p'.file →
      p.pc = .returned 0 → p'.pc = .returned 0 → pid = pid') ∧
    (∀ f pid, m.locks f = some pid ↔ Past m.procs f pid) := by
  have hheld := singles_locksHeld hm
  refine ⟨?_, hheld⟩
  intro pid pid' p p' hp hp' hfile hpc hpc'
  have hpast : Past m.procs p.file pid := ⟨p, hp, rfl, by rw [hpc]; rfl⟩
  have hpast' : Past m.procs p.file pid' := ⟨p', hp', hfile.symm, by rw [hpc']; rfl⟩
  exact hheld.unique hpast hpast'

/-- The pid file of `myGenSvr` in the directory of the service. -/
def PidFile.service : PidFile := ⟨bytes "/srv", bytes "./myGenSvr.pid"⟩

/-- The program is started twice, by different paths. -/
theorem second_instance_refused :
    ∃ m, (singles false).Reachable m ∧ m.procs 100 = some ⟨.service, .returned 0⟩ ∧
      m.procs 200 = some ⟨.service, .returned (-1)⟩ := by
  let S := singles false
  have h₀ : S.Reachable ⟨fun _ => none, fun _ => none, fun _ => none⟩ :=
    .init ⟨fun _ => rfl, fun _ => rfl⟩
  have h₁ := h₀.step (show S.step _ (.start 100 (bytes "/srv") (bytes "./myGenSvr")) _ from
    ⟨⟨rfl, by decide⟩, rfl⟩)
  have h₂ := h₁.step (show S.step _ (.open 100 true) _ from ⟨trivial, rfl⟩)
  have h₃ := h₂.step (show S.step _ (.lock 100 true) _ from ⟨fun _ _ => Or.inl rfl, rfl⟩)
  have h₄ := h₃.step (show S.step _ (.ftruncate 100 true) _ from ⟨trivial, rfl⟩)
  have h₅ := h₄.step (show S.step _ (.write 100 4) _ from ⟨⟨by decide, fun _ => rfl⟩, rfl⟩)
  have h₆ := h₅.step (show S.step _ (.start 200 (bytes "/srv") (bytes "/opt/myGenSvr")) _ from
    ⟨⟨rfl, by decide⟩, rfl⟩)
  have h₇ := h₆.step (show S.step _ (.open 200 true) _ from ⟨trivial, rfl⟩)
  have h₈ := h₇.step (show S.step _ (.lock 200 false) _ from ⟨trivial, rfl⟩)
  exact ⟨_, h₈, rfl, rfl⟩

/-- The first of them has the lock. -/
theorem single_instance_first :
    ∃ m : SingleState, m.procs 200 = some ⟨.service, .returned (-1)⟩ ∧
      m.locks .service = some 100 := by
  obtain ⟨m, hm, hfirst, hsecond⟩ := second_instance_refused
  exact ⟨m, hsecond, ((single_instance false m hm).2 .service 100).mpr ⟨_, hfirst, rfl, rfl⟩⟩

/-! ## What is in the file -/

theorem pidText_eq {pid : Nat} (hpid : pid < 2 ^ 31) :
    pidText pid = decimal pid ++ bytes "\n" := by
  have hdigits : (decimal pid).length ≤ 10 := by
    show ((Nat.toDigits 10 pid).map ch).length ≤ 10
    rw [List.length_map, Nat.length_toDigits_le_iff (by decide) (by decide)]
    omega
  have hone : (bytes "\n").length = 1 := rfl
  refine List.take_of_length_le ?_
  rw [List.length_append, hone]
  omega

/-- What the processes past the lock have written, if no call fails. -/
structure SingleState.Written (m : SingleState) : Prop where
  small : ∀ pid p, m.procs pid = some p → pid < 2 ^ 31
  emptied : ∀ pid f, m.procs pid = some ⟨f, .write⟩ → m.disk f = some []
  written : ∀ pid f, m.procs pid = some ⟨f, .returned 0⟩ → m.disk f = some (pidText pid)

section Files

variable {ioMayFail : Bool} {m m' : SingleState}

/-- A process past the lock is the only one there. -/
theorem SingleState.LocksHeld.only (h : m.LocksHeld) {pid pid' : Nat} {f : PidFile}
    {pc pc' : SinglePc} (hp : m.procs pid = some ⟨f, pc⟩) (hp' : m.procs pid' = some ⟨f, pc'⟩)
    (hlocked : pc.Locked) (hlocked' : pc'.Locked) : pid = pid' :=
  h.unique (f := f) ⟨_, hp, rfl, hlocked⟩ ⟨_, hp', rfl, hlocked'⟩

theorem goto_procs {pid : Nat} {p : Instance} {pc : SinglePc} :
    (m.goto pid p pc).procs pid = some { p with pc := pc } := Function.update_self _ _ _

/-- The file of a process past the lock changes only by its own steps. -/
theorem SingleStep.disk_eq {ev : SingleEvent} (hst : SingleStep m ev m') (h : m.LocksHeld)
    {pid : Nat} {f : PidFile} {pc : SinglePc} (hp : m.procs pid = some ⟨f, pc⟩)
    (hlocked : pc.Locked) (hexists : (m.disk f).isSome) (hp' : m'.procs pid = some ⟨f, pc⟩) :
    m'.disk f = m.disk f := by
  have hput : ∀ {pid₁ : Nat} {f₁ : PidFile} {pc₁ : SinglePc} (contents : List UInt8),
      m.procs pid₁ = some ⟨f₁, pc₁⟩ → pc₁.Locked → pid₁ ≠ pid →
      (m.put f₁ contents).disk f = m.disk f := by
    intro pid₁ f₁ pc₁ contents hproc₁ hlocked₁ hne
    refine Function.update_of_ne ?_ _ _
    rintro rfl
    exact hne (h.only hproc₁ hp hlocked₁ hlocked)
  cases hst with
  | start pid₁ cwd appname name => rfl
  | failed pid₁ f₁ pc₁ => rfl
  | locked pid₁ f₁ => rfl
  | exit pid₁ p₁ => rfl
  | opened pid₁ f₁ hproc₁ =>
      show Function.update m.disk f₁ _ f = m.disk f
      by_cases hfile : f = f₁
      · subst hfile
        obtain ⟨contents, hcontents⟩ := Option.isSome_iff_exists.mp hexists
        rw [Function.update_self, hcontents, Option.getD_some]
      · exact Function.update_of_ne hfile _ _
  | emptied pid₁ f₁ succeeds hproc₁ =>
      by_cases hpid : pid₁ = pid
      · subst hpid
        rw [goto_procs] at hp'
        have hbefore := (Instance.mk.inj (Option.some.inj (hproc₁.symm.trans hp))).2
        have hafter := (Instance.mk.inj (Option.some.inj hp')).2
        cases hbefore.trans hafter.symm
      · cases succeeds with
        | true => exact hput [] hproc₁ trivial hpid
        | false => rfl
  | written pid₁ f₁ n hproc₁ =>
      by_cases hpid : pid₁ = pid
      · subst hpid
        rw [goto_procs] at hp'
        have hbefore := (Instance.mk.inj (Option.some.inj (hproc₁.symm.trans hp))).2
        have hafter := (Instance.mk.inj (Option.some.inj hp')).2
        cases hbefore.trans hafter.symm
      · exact hput _ hproc₁ trivial hpid

/-- Where a process stands after a step: it moved to the end of its next call, or is where
it was. -/
theorem SingleStep.procs_cases {ev : SingleEvent} (hst : SingleStep m ev m') {pid : Nat}
    {f : PidFile} {pc : SinglePc} (hp' : m'.procs pid = some ⟨f, pc⟩) (hlocked : pc.Locked) :
    m.procs pid = some ⟨f, pc⟩ ∨
      (pc = .ftruncate ∧ m.procs pid = some ⟨f, .lock⟩) ∨
      (pc = .write ∧ ∃ succeeds, ev = .ftruncate pid succeeds ∧
        m.procs pid = some ⟨f, .ftruncate⟩ ∧ m' = (if succeeds then m.put f [] else m).goto pid
          ⟨f, .ftruncate⟩ .write) ∨
      (pc = .returned 0 ∧ ∃ n, ev = .write pid n ∧ m.procs pid = some ⟨f, .write⟩ ∧
        m' = (m.put f ((pidText pid).take n ++ ((m.disk f).getD []).drop n)).goto pid
          ⟨f, .write⟩ (.returned 0)) := by
  cases hst with
  | start pid₁ cwd appname name =>
      rcases update_eq_some_iff.mp hp' with ⟨rfl, hnew⟩ | ⟨-, hold⟩
      · obtain ⟨-, rfl⟩ := Instance.mk.inj hnew
        exact hlocked.elim
      · exact Or.inl hold
  | opened pid₁ f₁ =>
      rcases update_eq_some_iff.mp hp' with ⟨rfl, hnew⟩ | ⟨-, hold⟩
      · obtain ⟨-, rfl⟩ := Instance.mk.inj hnew
        exact hlocked.elim
      · exact Or.inl hold
  | failed pid₁ f₁ =>
      rcases update_eq_some_iff.mp hp' with ⟨rfl, hnew⟩ | ⟨-, hold⟩
      · obtain ⟨-, rfl⟩ := Instance.mk.inj hnew
        exact absurd hlocked (show ¬(-1 : Int) = 0 by decide)
      · exact Or.inl hold
  | locked pid₁ f₁ hproc₁ =>
      rcases update_eq_some_iff.mp hp' with ⟨rfl, hnew⟩ | ⟨-, hold⟩
      · obtain ⟨rfl, rfl⟩ := Instance.mk.inj hnew
        exact Or.inr (Or.inl ⟨rfl, hproc₁⟩)
      · exact Or.inl hold
  | emptied pid₁ f₁ succeeds hproc₁ =>
      have hprocs : (if succeeds then m.put f₁ [] else m).procs = m.procs := by
        cases succeeds <;> rfl
      rcases update_eq_some_iff.mp hp' with ⟨rfl, hnew⟩ | ⟨-, hold⟩
      · obtain ⟨rfl, rfl⟩ := Instance.mk.inj hnew
        exact Or.inr (Or.inr (Or.inl ⟨rfl, succeeds, rfl, hproc₁, rfl⟩))
      · exact Or.inl (hprocs ▸ hold)
  | written pid₁ f₁ n hproc₁ =>
      rcases update_eq_some_iff.mp hp' with ⟨rfl, hnew⟩ | ⟨-, hold⟩
      · obtain ⟨rfl, rfl⟩ := Instance.mk.inj hnew
        exact Or.inr (Or.inr (Or.inr ⟨rfl, n, rfl, hproc₁, rfl⟩))
      · exact Or.inl hold
  | exit pid₁ p₁ => exact Or.inl (erase_eq_some_iff.mp hp').2

theorem SingleStep.small {ev : SingleEvent} (hst : SingleStep m ev m')
    (h : ∀ pid p, m.procs pid = some p → pid < 2 ^ 31) (pid : Nat) (p : Instance)
    (hp' : m'.procs pid = some p) : pid < 2 ^ 31 := by
  cases hst with
  | start pid₁ cwd appname name hnew hsmall =>
      rcases update_eq_some_iff.mp hp' with ⟨rfl, -⟩ | ⟨-, hold⟩
      · exact hsmall
      · exact h pid p hold
  | emptied pid₁ f₁ succeeds hproc₁ =>
      have hprocs : (if succeeds then m.put f₁ [] else m).procs = m.procs := by
        cases succeeds <;> rfl
      rcases update_eq_some_iff.mp hp' with ⟨rfl, -⟩ | ⟨-, hold⟩
      · exact h _ _ hproc₁
      · exact h pid p (hprocs ▸ hold)
  | opened pid₁ f₁ hproc₁ | failed pid₁ f₁ _ _ hproc₁ | locked pid₁ f₁ hproc₁
  | written pid₁ f₁ n hproc₁ =>
      rcases update_eq_some_iff.mp hp' with ⟨rfl, -⟩ | ⟨-, hold⟩
      · exact h _ _ hproc₁
      · exact h pid p hold
  | exit pid₁ p₁ => exact h pid p (erase_eq_some_iff.mp hp').2

/-- **One step keeps what was written**, where no call fails. -/
theorem SingleState.Written.step (hw : m.Written) (h : m.LocksHeld) {ev : SingleEvent}
    (hst : (singles false).step m ev m') : m'.Written := by
  have hcases := SingleState.next_cases hst
  refine ⟨hcases.small hw.small, ?_, ?_⟩
  · intro pid f hp'
    rcases hcases.procs_cases hp' trivial with
      hsame | ⟨hpc, -⟩ | ⟨-, succeeds, rfl, -, rfl⟩ | ⟨hpc, -⟩
    · have hempty := hw.emptied pid f hsame
      rw [hcases.disk_eq h hsame trivial (by rw [hempty]; rfl) hp', hempty]
    · cases hpc
    · cases succeeds with
      | true => exact Function.update_self _ _ _
      | false => cases (show false = true from hst.1)
    · cases hpc
  · intro pid f hp'
    rcases hcases.procs_cases hp' rfl with hsame | ⟨hpc, -⟩ | ⟨hpc, -⟩ | ⟨-, n, rfl, hproc, rfl⟩
    · have hwritten := hw.written pid f hsame
      rw [hcases.disk_eq h hsame rfl (by rw [hwritten]; rfl) hp', hwritten]
    · cases hpc
    · cases hpc
    · have hall : n = (pidText pid).length := hst.1.2 rfl
      show Function.update m.disk f _ f = _
      rw [Function.update_self, hw.emptied pid f hproc, Option.getD_some, List.drop_nil,
        List.append_nil, hall, List.take_length]

end Files

/-- **The pid file names the instance.**  If `ftruncate` and `write` succeed, the pid file of
a process that was let past `run_single` holds its pid for as long as the process lives,
however many others are started, refused or die meanwhile. -/
theorem pid_file_names_instance (m : SingleState) (hm : (singles false).Reachable m) (pid : Nat)
    (f : PidFile) (hp : m.procs pid = some ⟨f, .returned 0⟩) :
    m.disk f = some (decimal pid ++ bytes "\n") ∧
      ∀ pid' : Nat, m.disk f = some (decimal pid' ++ bytes "\n") → pid' = pid := by
  have hwritten : m.Written := by
    refine System.invariant_of_step (P := SingleState.Written) ?_ ?_ hm
    · rintro m ⟨hprocs, -⟩
      exact ⟨by simp [hprocs], by simp [hprocs], by simp [hprocs]⟩
    · intro m ev m' hm hw hst
      exact hw.step (singles_locksHeld hm) hst
  have hdisk := hwritten.written pid f hp
  rw [pidText_eq (hwritten.small pid _ hp)] at hdisk
  refine ⟨hdisk, ?_⟩
  intro pid' hdisk'
  rw [hdisk, Option.some.injEq] at hdisk'
  exact (decimal_injective (List.append_cancel_right hdisk')).symm

/-- The refused instance has left the file as it was. -/
theorem pid_file_names_instance_first :
    ∃ m : SingleState, m.procs 200 = some ⟨.service, .returned (-1)⟩ ∧
      m.disk .service = some (bytes "100\n") := by
  obtain ⟨m, hm, hfirst, hsecond⟩ := second_instance_refused
  obtain ⟨hdisk, -⟩ := pid_file_names_instance m hm 100 .service hfirst
  exact ⟨m, hsecond, hdisk⟩

end MyGenSvr.Ports
