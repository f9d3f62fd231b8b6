import MyGenSvr.Ports.Log
import MyGenSvr.Verified.Transition

/-!
# Rotation by several threads

Any number of threads call `shift_files` on one log name while others append to the
current file, one system call at a time in any order.  The size check and the rename
of the current file are different system calls, so a thread that has seen a full file
may rename the one that was created after another thread moved the full one away.

Where no thread renames the current file between the size check and the rename of
another one, every file moved from index 0 to index 1 is full.

## Main results

* `ShiftMove.current` — what one system call does to the current file.
* `only_full_files_shifted` — the law, in every run with that restriction.
-/

namespace MyGenSvr.Ports

open MyGenSvr.Verified.Transition

/-! ## The system -/

/-- A shared directory, and where each thread stands in `shift_files`. -/
structure LogState (τ : Type) where
  dir : Dir
  pc : τ → ShiftPc

/-- What can happen: a thread calls `shift_files`, makes its next system call, or some
thread appends to the current file. -/
inductive LogEvent (τ : Type) where
  | call (t : τ)
  | step (t : τ) (succeeds : Bool)
  | append (text : List UInt8)

variable {τ : Type} [DecidableEq τ]

/-- The state after an event, if it can happen. -/
def LogState.next (log : Log) (file_name : List UInt8) (s : LogState τ) :
    LogEvent τ → Option (LogState τ)
  | .call t =>
      match s.pc t with
      | .returned _ => some { s with pc := Function.update s.pc t .stat }
      | _ => none
  | .step t succeeds =>
      match s.pc t with
      | .returned _ => none
      | pc =>
          (shiftStep log file_name s.dir succeeds pc).map fun next =>
            ⟨next.1, Function.update s.pc t next.2⟩
  | .append text =>
      let contents := (s.dir (logName file_name 0)).getD []
      some { s with dir := Function.update s.dir (logName file_name 0) (some (contents ++ text)) }

/-- The runs from any directory, with no call under way. -/
def logSystem (log : Log) (file_name : List UInt8) : System (LogState τ) (LogEvent τ) :=
  .ofNext (fun s => ∀ t, ∃ r, s.pc t = .returned r) (LogState.next log file_name)

/-- The event renames the current file, with these contents, to index 1. -/
def ShiftsCurrent (file_name : List UInt8) (s : LogState τ) (e : LogEvent τ)
    (contents : List UInt8) : Prop :=
  ∃ t, e = .step t true ∧ s.pc t = .rename 0 ∧ s.dir (logName file_name 0) = some contents

/-- Between the size check and the rename of the current file. -/
def PastCheck : ShiftPc → Prop
  | .accessOldest | .removeOldest => True
  | .access i | .rename i => 0 ≤ i
  | .stat | .returned _ => False

instance instDecidablePastCheck : (pc : ShiftPc) → Decidable (PastCheck pc)
  | .accessOldest | .removeOldest => isTrue trivial
  | .access i | .rename i => inferInstanceAs (Decidable (0 ≤ i))
  | .stat | .returned _ => isFalse id

/-- No other thread is between its size check and its rename of the current file when
one renames it. -/
def RenamesAlone (s : LogState τ) : LogEvent τ → Prop
  | .step t true => s.pc t = .rename 0 → ∀ u, u ≠ t → ¬PastCheck (s.pc u)
  | _ => True

instance instDecidableRenamesAlone [Fintype τ] (s : LogState τ) :
    (e : LogEvent τ) → Decidable (RenamesAlone s e)
  | .step t true =>
      inferInstanceAs (Decidable (s.pc t = .rename 0 → ∀ u, u ≠ t → ¬PastCheck (s.pc u)))
  | .step _ false | .call _ | .append _ => isTrue trivial

/-! ## One system call -/

section Calls

variable {log : Log} {file_name : List UInt8} {d d' : Dir} {succeeds : Bool} {pc pc' : ShiftPc}

/-- The indices a call works on. -/
def InLoop (log : Log) : ShiftPc → Prop
  | .access i => i ≤ log.max_log_num - 2
  | .rename i => 0 ≤ i ∧ i ≤ log.max_log_num - 2
  | _ => True

theorem name_ne_current {i : Int} {name : List UInt8} (hi : 1 ≤ i)
    (h : log_file_name file_name i = some name) : logName file_name 0 ≠ name := by
  intro hsame
  have hcast : (i.toNat : Int) = i := Int.toNat_of_nonneg (by omega)
  rw [← hcast] at h
  rw [log_file_name_some h, logName_inj] at hsame
  omega

/-- A call stays within the indices of the loop. -/
theorem ShiftMove.inLoop (h : ShiftMove log file_name d succeeds pc d' pc')
    (hpc : InLoop log pc) : InLoop log pc' := by
  cases h with
  | ended => trivial
  | checked => trivial
  | oldestFound => trivial
  | oldestAbsent => exact Int.le_refl _
  | removed => exact Int.le_refl _
  | found hi => exact ⟨hi, hpc⟩
  | absent =>
      simp only [InLoop] at hpc ⊢
      omega
  | renamed =>
      simp only [InLoop] at hpc ⊢
      omega

/-- Only the size check, on a full file, leads into the stretch up to the rename. -/
theorem ShiftMove.pastCheck (h : ShiftMove log file_name d succeeds pc d' pc')
    (hpc : InLoop log pc) (hpast : PastCheck pc') :
    PastCheck pc ∨ FullAt log d (logName file_name 0) := by
  cases h with
  | ended => exact hpast.elim
  | checked hfull => exact Or.inr hfull
  | oldestFound => exact Or.inl trivial
  | oldestAbsent => exact Or.inl trivial
  | removed => exact Or.inl trivial
  | found hi => exact Or.inl hi
  | absent hi => exact Or.inl hi
  | renamed => exact Or.inl hpc.1

/-- **The current file** is left alone but for its own rename, which ends the stretch. -/
theorem ShiftMove.current (h : ShiftMove log file_name d succeeds pc d' pc')
    (hnum : 2 ≤ log.max_log_num) (hpc : InLoop log pc) :
    d' (logName file_name 0) = d (logName file_name 0) ∨
      (pc = .rename 0 ∧ succeeds = true ∧ ¬PastCheck pc') := by
  cases h with
  | ended => exact Or.inl rfl
  | checked => exact Or.inl rfl
  | oldestFound => exact Or.inl rfl
  | oldestAbsent => exact Or.inl rfl
  | removed hname hremove =>
      obtain ⟨_, _, rfl⟩ := Option.map_eq_some_iff.mp hremove
      exact Or.inl (Function.update_of_ne (name_ne_current (by omega) hname) _ _)
  | found => exact Or.inl rfl
  | absent => exact Or.inl rfl
  | @renamed i _ _ _ hsucceeds hname hname' hrename =>
      by_cases hzero : i = 0
      · subst hzero
        refine Or.inr ⟨rfl, hsucceeds, ?_⟩
        simp [PastCheck]
      · have hlow : 1 ≤ i := by
          have hnonneg := hpc.1
          omega
        obtain ⟨_, _, rfl⟩ := Option.map_eq_some_iff.mp hrename
        refine Or.inl ?_
        rw [Function.update_of_ne (name_ne_current (by omega) hname'),
          Function.update_of_ne (name_ne_current hlow hname)]

end Calls

/-! ## All threads -/

section Threads

variable {log : Log} {file_name : List UInt8} {s s' : LogState τ} {e : LogEvent τ}

/-- Where renames of the current file do not overlap, it is full as long as any thread
is between its check and its rename. -/
structure CheckHolds (log : Log) (file_name : List UInt8) (s : LogState τ) : Prop where
  inLoop : ∀ t, InLoop log (s.pc t)
  full : 2 ≤ log.max_log_num → ∀ t, PastCheck (s.pc t) →
    FullAt log s.dir (logName file_name 0)

theorem CheckHolds.call (hs : CheckHolds log file_name s) (t : τ) :
    CheckHolds log file_name { s with pc := Function.update s.pc t .stat } := by
  constructor
  · exact (Function.forall_update_iff s.pc fun _ pc => InLoop log pc).mpr
      ⟨trivial, fun u _ => hs.inLoop u⟩
  · intro hnum
    exact (Function.forall_update_iff s.pc fun _ pc =>
      PastCheck pc → FullAt log s.dir (logName file_name 0)).mpr
      ⟨False.elim, fun u _ => hs.full hnum u⟩

/-- An append makes the current file no smaller. -/
theorem FullAt.append {d : Dir} (h : FullAt log d (logName file_name 0)) (text : List UInt8) :
    FullAt log (Function.update d (logName file_name 0)
      (some ((d (logName file_name 0)).getD [] ++ text))) (logName file_name 0) := by
  obtain ⟨contents, hfile, hsize⟩ := h
  refine ⟨contents ++ text, ?_, ?_⟩
  · rw [Function.update_self, hfile]
    rfl
  · rw [List.length_append]
    omega

theorem CheckHolds.step (hs : CheckHolds log file_name s) {t : τ} {succeeds : Bool} {d' : Dir}
    {pc' : ShiftPc} (h : ShiftMove log file_name s.dir succeeds (s.pc t) d' pc')
    (halone : RenamesAlone s (.step t succeeds)) :
    CheckHolds log file_name ⟨d', Function.update s.pc t pc'⟩ := by
  constructor
  · exact (Function.forall_update_iff s.pc fun _ pc => InLoop log pc).mpr
      ⟨h.inLoop (hs.inLoop t), fun u _ => hs.inLoop u⟩
  · intro hnum u hpast
    have hcurrent := h.current hnum (hs.inLoop t)
    have hbefore : PastCheck (s.pc u) ∨ FullAt log s.dir (logName file_name 0) := by
      by_cases hut : u = t
      · subst hut
        simp only [Function.update_self] at hpast
        exact h.pastCheck (hs.inLoop u) hpast
      · simp only [Function.update_of_ne hut] at hpast
        exact Or.inl hpast
    have hfull : FullAt log s.dir (logName file_name 0) :=
      hbefore.elim (hs.full hnum u) id
    rcases hcurrent with hsame | ⟨hrename, rfl, hended⟩
    · obtain ⟨contents, hfile, hsize⟩ := hfull
      exact ⟨contents, hsame.trans hfile, hsize⟩
    · -- the current file goes: no thread is past its check any more
      by_cases hut : u = t
      · subst hut
        simp only [Function.update_self] at hpast
        exact absurd hpast hended
      · simp only [Function.update_of_ne hut] at hpast
        exact absurd hpast (halone hrename u hut)

theorem CheckHolds.next (hs : CheckHolds log file_name s) (halone : RenamesAlone s e)
    (h : s.next log file_name e = some s') : CheckHolds log file_name s' := by
  cases e with
  | call t =>
      simp only [LogState.next] at h
      split at h
      · obtain rfl := Option.some.inj h
        exact hs.call t
      · exact absurd h (by simp)
  | step t succeeds =>
      simp only [LogState.next] at h
      split at h
      · exact absurd h (by simp)
      · obtain ⟨next, hnext, rfl⟩ := Option.map_eq_some_iff.mp h
        exact hs.step (shiftStep_move hnext) halone
  | append text =>
      obtain rfl := Option.some.inj h
      exact ⟨hs.inLoop, fun hnum t hpast => (hs.full hnum t hpast).append text⟩

/-- With no call under way no thread is past its check. -/
theorem CheckHolds.start (hinit : (logSystem log file_name).init s) :
    CheckHolds log file_name s := by
  constructor
  · intro t
    obtain ⟨r, hr⟩ := hinit t
    rw [hr]
    trivial
  · intro _ t hpast
    obtain ⟨r, hr⟩ := hinit t
    rw [hr] at hpast
    exact hpast.elim

/-- **Only full files are shifted**, in every run in which no thread renames the current
file between the size check and the rename of another one. -/
theorem only_full_files_shifted {s₀ : LogState τ} {es : List (LogEvent τ)}
    (hinit : (logSystem log file_name).init s₀)
    (hrun : ((logSystem log file_name).restrict RenamesAlone).Run s₀ es s)
    {contents : List UInt8} (hshift : ShiftsCurrent file_name s e contents) :
    log.max_log_size ≤ contents.length := by
  have hkeep : ∀ (u : LogState τ) (f : LogEvent τ) (v : LogState τ), CheckHolds log file_name u →
      ((logSystem log file_name).restrict RenamesAlone).step u f v →
      CheckHolds log file_name v := by
    intro u f v hu hmet
    exact hu.next hmet.1 hmet.2
  have hholds := hrun.preserves hkeep (CheckHolds.start hinit)
  obtain ⟨t, _, hpc, hfile⟩ := hshift
  have hloop : 0 ≤ log.max_log_num - 2 := by
    have h := hholds.inLoop t
    rw [hpc] at h
    exact h.2
  have hpast : PastCheck (s.pc t) := by
    rw [hpc]
    exact Int.le_refl 0
  obtain ⟨contents', hfile', hsize⟩ := hholds.full (by omega) t hpast
  rw [hfile, Option.some.injEq] at hfile'
  rw [hfile']
  exact hsize

end Threads

/-! ## One thread, and two -/

/-- A directory with one log file of five bytes, and two threads. -/
def fiveBytes : LogState Bool :=
  ⟨fun name => if name = logName [97] 0 then some [1, 2, 3, 4, 5] else none,
    fun _ => .returned 0⟩

/-- One step of two threads, where no rename of the current file overlaps. -/
def aloneNext (s : LogState Bool) (e : LogEvent Bool) : Option (LogState Bool) :=
  if RenamesAlone s e then s.next ⟨5, 2⟩ [97] e else none

/-- One thread rotates the full file, the file fills again, and the other one rotates it. -/
def twoRotations : List (LogEvent Bool) :=
  [.call true, .call false, .step false true, .step false true, .step false true,
    .step false true, .append [6, 7], .step false true, .append [8, 9, 10], .step true true,
    .step true true, .step true true, .step true true]

/-- The file that the second thread is about to rename is full too. -/
theorem only_full_files_shifted_twice :
    ∃ s, ((logSystem ⟨5, 2⟩ [97]).restrict RenamesAlone).Run fiveBytes twoRotations s ∧
      ShiftsCurrent [97] s (.step true true) [6, 7, 8, 9, 10] ∧
      (5 : Int) ≤ ([6, 7, 8, 9, 10] : List UInt8).length := by
  have hfold : ∃ s, List.foldlM aloneNext fiveBytes twoRotations = some s ∧
      s.pc true = .rename 0 ∧ s.dir (logName [97] 0) = some [6, 7, 8, 9, 10] :=
    ⟨_, rfl, by decide, by decide⟩
  have hnext : ∀ s e t, aloneNext s e = some t →
      ((logSystem ⟨5, 2⟩ [97]).restrict RenamesAlone).step s e t := by
    intro s e t h
    unfold aloneNext at h
    split at h
    · exact ⟨‹_›, h⟩
    · exact absurd h (by simp)
  obtain ⟨s, hs, hpc, hfile⟩ := hfold
  have hrun := System.Run.of_foldlM hnext _ hs
  have hshift : ShiftsCurrent [97] s (.step true true) [6, 7, 8, 9, 10] :=
    ⟨true, rfl, hpc, hfile⟩
  exact ⟨s, hrun, hshift, only_full_files_shifted (fun _ => ⟨0, rfl⟩) hrun hshift⟩

/-- Two threads both see the full file; the first moves it away, a byte is appended,
and the second one moves the new file over it. -/
theorem small_file_shifted :
    ∃ s, (logSystem ⟨5, 2⟩ [97]).Reachable s ∧
      ShiftsCurrent [97] s (.step (true : Bool) true) [6] ∧ ¬(5 : Int) ≤ [(6 : UInt8)].length := by
  have hrun : ∃ s, List.foldlM (LogState.next ⟨5, 2⟩ [97]) fiveBytes
      [.call false, .call true, .step false true, .step true true, .step false true,
        .step true true, .step false true, .step false true, .append [6], .step true true] =
      some s ∧ s.pc true = .rename 0 ∧ s.dir (logName [97] 0) = some [6] := by
    refine ⟨_, rfl, ?_, ?_⟩
    · decide
    · decide
  obtain ⟨s, hs, hpc, hfile⟩ := hrun
  have hreach : (logSystem ⟨5, 2⟩ [97]).Reachable s :=
    ⟨fiveBytes, _, fun _ => ⟨0, rfl⟩, .of_foldlM (fun _ _ _ h => h) _ hs⟩
  exact ⟨s, hreach, ⟨true, rfl, hpc, hfile⟩, by decide⟩

end MyGenSvr.Ports
