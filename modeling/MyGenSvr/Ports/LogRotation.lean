import MyGenSvr.Ports.Log
import MyGenSvr.Verified.InputLoop
import MyGenSvr.Verified.Rotation

/-!
# Rotation by one thread

`shift_files` run alone, on any directory and with any outcome of its `remove` and
`rename` calls.  `Rotating` says what the directory is at each system call: the loop
has shifted the files above its index, the place above the index is free, and the
files from the index down are where they were.

## Main results

* `shiftBody_step` — one system call keeps `Rotating`, or ends as it should.
* `shift_files_keeps` — what `shift_files` leaves behind, whatever fails.
-/

namespace MyGenSvr.Ports

open MyGenSvr.Verified
open MyGenSvr.Verified.InputLoop

/-- How a call of `shift_files` ends. -/
inductive ShiftOutcome where
  | undefined
  | returned (r : Int) (d : Dir)

/-- One system call of a call of `shift_files` that runs alone. -/
def shiftBody (log : Log) (file_name : List UInt8) (s : Dir × ShiftPc) (succeeds : Bool) :
    (Dir × ShiftPc) ⊕ ShiftOutcome :=
  match shiftStep log file_name s.1 succeeds s.2 with
  | none => .inr .undefined
  | some (d, .returned r) => .inr (.returned r d)
  | some next => .inl next

/-- `shift_files`, with the outcomes of its system calls in order: the number of
calls, and how it ended. -/
def shift_files (log : Log) (file_name : List UInt8) (d : Dir) (outcomes : List Bool) :
    Nat × ((Dir × ShiftPc) ⊕ ShiftOutcome) :=
  InputLoop.run (shiftBody log file_name) (d, .stat) outcomes

/-- A `rename` about to be made finds no file at the new name. -/
def TargetFree (file_name : List UInt8) (s : Dir × ShiftPc) : Prop :=
  ∀ i, s.2 = .rename i → ∀ new_file, log_file_name file_name (i + 1) = some new_file →
    s.1 new_file = none

/-! ## The state at each system call -/

/-- The directory at each system call, from `d₀` on, with `N` files kept. -/
def Rotating (file_name : List UInt8) (N : Nat) (d₀ : Dir) : Dir × ShiftPc → Prop
  | (d, .stat) => d = d₀
  | (d, .accessOldest) => d = d₀
  | (d, .removeOldest) => d = d₀
  | (d, .access i) =>
      ∃ k : Nat, i + 1 = k ∧ k < N ∧ Rotation.Shifted (logName file_name) N k d₀ d
  | (d, .rename i) =>
      ∃ k : Nat, i = k ∧ k + 1 < N ∧ Rotation.Shifted (logName file_name) N (k + 1) d₀ d
  | (_, .returned _) => False

/-- What a call that returns leaves behind. -/
def Rotated (log : Log) (file_name : List UInt8) (N : Nat) (d₀ : Dir) (r : Int) (d : Dir) :
    Prop :=
  (r = 0 ∧ d = d₀ ∧ ¬FullAt log d₀ (logName file_name 0)) ∨
    (r = 0 ∧ Rotation.Shifted (logName file_name) N 0 d₀ d) ∨
    (r = -1 ∧ (d = d₀ ∨ ∃ k < N, Rotation.Shifted (logName file_name) N k d₀ d))

/-- An upper bound on the system calls still to come. -/
def callsLeft (N : Nat) : ShiftPc → Nat
  | .stat => 2 * N + 2
  | .accessOldest => 2 * N + 1
  | .removeOldest => 2 * N
  | .access i => 2 * (i + 1).toNat + 1
  | .rename i => 2 * (i + 1).toNat
  | .returned _ => 0

section Calls

variable {log : Log} {file_name : List UInt8} {N : Nat} {d₀ d : Dir} {succeeds : Bool}

/-- One system call goes on as `Rotating` says, nearer to the end, or ends as
`Rotated` says. -/
def Proceeds (log : Log) (file_name : List UInt8) (N : Nat) (d₀ : Dir) (s : Dir × ShiftPc)
    (succeeds : Bool) : Prop :=
  (∃ s', shiftBody log file_name s succeeds = .inl s' ∧ Rotating file_name N d₀ s' ∧
      callsLeft N s'.2 < callsLeft N s.2) ∨
    ∃ r d, shiftBody log file_name s succeeds = .inr (.returned r d) ∧
      Rotated log file_name N d₀ r d

/-- A call that goes on does so as `Rotating` says. -/
theorem Proceeds.kept {s s' : Dir × ShiftPc} (h : Proceeds log file_name N d₀ s succeeds)
    (hbody : shiftBody log file_name s succeeds = .inl s') :
    Rotating file_name N d₀ s' ∧ callsLeft N s'.2 < callsLeft N s.2 := by
  rcases h with ⟨next, hnext, hkept, hless⟩ | ⟨r, d, hreturn, _⟩
  · rw [hnext, Sum.inl.injEq] at hbody
    subst hbody
    exact ⟨hkept, hless⟩
  · rw [hreturn] at hbody
    exact absurd hbody (by simp)

/-- A call that ends does so as `Rotated` says. -/
theorem Proceeds.left {s : Dir × ShiftPc} {out : ShiftOutcome}
    (h : Proceeds log file_name N d₀ s succeeds)
    (hbody : shiftBody log file_name s succeeds = .inr out) :
    ∃ r d, out = .returned r d ∧ Rotated log file_name N d₀ r d := by
  rcases h with ⟨next, hnext, _, _⟩ | ⟨r, d, hreturn, hrotated⟩
  · rw [hnext] at hbody
    exact absurd hbody (by simp)
  · rw [hreturn, Sum.inr.injEq] at hbody
    exact ⟨r, d, hbody.symm, hrotated⟩

theorem stat_proceeds : Proceeds log file_name N d₀ (d₀, .stat) succeeds := by
  have hname : log_file_name file_name 0 = some (logName file_name 0) := name_current
  cases hfile : d₀ (logName file_name 0) with
  | none =>
      have hnone : ¬FullAt log d₀ (logName file_name 0) := by
        intro hfull
        obtain ⟨contents, hcontents, _⟩ := hfull
        rw [hfile] at hcontents
        exact absurd hcontents (by simp)
      refine Or.inr ⟨0, d₀, ?_, Or.inl ⟨rfl, rfl, hnone⟩⟩
      simp [shiftBody, shiftStep, hname, hfile]
  | some contents =>
      by_cases hsmall : (contents.length : Int) < log.max_log_size
      · have hnot : ¬FullAt log d₀ (logName file_name 0) := by
          intro hfull
          obtain ⟨contents', hcontents, hsize⟩ := hfull
          rw [hfile, Option.some.injEq] at hcontents
          rw [← hcontents] at hsize
          omega
        refine Or.inr ⟨0, d₀, ?_, Or.inl ⟨rfl, rfl, hnot⟩⟩
        simp [shiftBody, shiftStep, hname, hfile, hsmall]
      · refine Or.inl ⟨(d₀, .accessOldest), ?_, rfl, Nat.lt_succ_self _⟩
        simp [shiftBody, shiftStep, hname, hfile, hsmall]

theorem name_oldest (file_name : List UInt8) (hN : log.max_log_num = (N + 1 : Nat))
    (hmax : N < 10 ^ 9) :
    log_file_name file_name (log.max_log_num - 1) = some (logName file_name N) := by
  have holdest : log.max_log_num - 1 = N := by omega
  rw [holdest]
  exact log_file_name_eq file_name hmax

theorem accessOldest_proceeds (hN : log.max_log_num = (N + 1 : Nat)) (hmax : N < 10 ^ 9) :
    Proceeds log file_name (N + 1) d₀ (d₀, .accessOldest) succeeds := by
  have hname := name_oldest file_name hN hmax
  cases hfile : d₀ (logName file_name N) with
  | none =>
      have hstart := Rotation.Shifted.start (fun i j => (logName_inj file_name).mp) d₀ N
      rw [← hfile, Function.update_eq_self] at hstart
      refine Or.inl ⟨(d₀, .access (log.max_log_num - 2)), ?_,
        ⟨N, by omega, N.lt_succ_self, hstart⟩, ?_⟩
      · simp [shiftBody, shiftStep, hname, hfile]
      · simp only [callsLeft]
        omega
  | some contents =>
      refine Or.inl ⟨(d₀, .removeOldest), ?_, rfl, Nat.lt_succ_self _⟩
      simp [shiftBody, shiftStep, hname, hfile]

theorem removeOldest_proceeds (hN : log.max_log_num = (N + 1 : Nat)) (hmax : N < 10 ^ 9) :
    Proceeds log file_name (N + 1) d₀ (d₀, .removeOldest) succeeds := by
  have hname := name_oldest file_name hN hmax
  have hstart := Rotation.Shifted.start (fun i j => (logName_inj file_name).mp) d₀ N
  cases hremove : (if succeeds then d₀.remove (logName file_name N) else none) with
  | none =>
      refine Or.inr ⟨-1, d₀, ?_, Or.inr (Or.inr ⟨rfl, Or.inl rfl⟩)⟩
      simp [shiftBody, shiftStep, hname, hremove]
  | some d' =>
      have hd' : d' = Function.update d₀ (logName file_name N) none := by
        cases succeeds with
        | false => exact absurd hremove (by simp)
        | true =>
            obtain ⟨_, _, hupdate⟩ := Option.map_eq_some_iff.mp hremove
            exact hupdate.symm
      rw [← hd'] at hstart
      refine Or.inl ⟨(d', .access (log.max_log_num - 2)), ?_,
        ⟨N, by omega, N.lt_succ_self, hstart⟩, ?_⟩
      · simp [shiftBody, shiftStep, hname, hremove]
      · simp only [callsLeft]
        omega

theorem access_proceeds (hmax : N ≤ 10 ^ 9) {k : Nat} {i : Int} (hi : i + 1 = k) (hk : k < N)
    (hshifted : Rotation.Shifted (logName file_name) N k d₀ d) :
    Proceeds log file_name N d₀ (d, .access i) succeeds := by
  cases k with
  | zero =>
      have hneg : i < 0 := by omega
      refine Or.inr ⟨0, d, ?_, Or.inr (Or.inl ⟨rfl, hshifted⟩)⟩
      simp [shiftBody, shiftStep, hneg]
  | succ k =>
      obtain rfl : i = k := by omega
      have hname := log_file_name_eq file_name (i := k) (by omega)
      have hnonneg : ¬(k : Int) < 0 := by omega
      cases hfile : d (logName file_name k) with
      | none =>
          refine Or.inl ⟨(d, .access (k - 1)), ?_, ⟨k, by omega, by omega, hshifted.skip hfile⟩,
            ?_⟩
          · simp [shiftBody, shiftStep, hnonneg, hname, hfile]
          · simp only [callsLeft]
            omega
      | some contents =>
          refine Or.inl ⟨(d, .rename k), ?_, ⟨k, rfl, hk, hshifted⟩, Nat.lt_succ_self _⟩
          simp [shiftBody, shiftStep, hnonneg, hname, hfile]

theorem rename_proceeds (hmax : N ≤ 10 ^ 9) {k : Nat} (hk : k + 1 < N)
    (hshifted : Rotation.Shifted (logName file_name) N (k + 1) d₀ d) :
    Proceeds log file_name N d₀ (d, .rename k) succeeds := by
  have hname := log_file_name_eq file_name (i := k) (by omega)
  have hname' : log_file_name file_name (k + 1) = some (logName file_name (k + 1)) :=
    log_file_name_eq file_name (i := k + 1) (by omega)
  cases hrename : (if succeeds then d.rename (logName file_name k) (logName file_name (k + 1))
      else none) with
  | none =>
      refine Or.inr ⟨-1, d, ?_, Or.inr (Or.inr ⟨rfl, Or.inr ⟨k + 1, hk, hshifted⟩⟩)⟩
      simp [shiftBody, shiftStep, hname, hname', hrename]
  | some d' =>
      have hd' : d' = Rotation.move d (logName file_name k) (logName file_name (k + 1)) := by
        cases succeeds with
        | false => exact absurd hrename (by simp)
        | true =>
            obtain ⟨contents, hcontents, hupdate⟩ := Option.map_eq_some_iff.mp hrename
            rw [Rotation.move, hcontents]
            exact hupdate.symm
      have hmoved := hshifted.move (fun i j => (logName_inj file_name).mp) hk
      rw [← hd'] at hmoved
      refine Or.inl ⟨(d', .access (k - 1)), ?_, ⟨k, by omega, by omega, hmoved⟩, ?_⟩
      · simp [shiftBody, shiftStep, hname, hname', hrename]
      · simp only [callsLeft]
        omega

/-- **One system call**, whatever the kernel does with it. -/
theorem shiftBody_step (hN : log.max_log_num = N) (hpos : 1 ≤ N) (hmax : N ≤ 10 ^ 9)
    {s : Dir × ShiftPc} (hs : Rotating file_name N d₀ s) :
    Proceeds log file_name N d₀ s succeeds := by
  obtain ⟨d, pc⟩ := s
  obtain ⟨n, rfl⟩ : ∃ n, N = n + 1 := ⟨N - 1, by omega⟩
  cases pc with
  | stat =>
      obtain rfl : d = d₀ := hs
      exact stat_proceeds
  | accessOldest =>
      obtain rfl : d = d₀ := hs
      exact accessOldest_proceeds hN (by omega)
  | removeOldest =>
      obtain rfl : d = d₀ := hs
      exact removeOldest_proceeds hN (by omega)
  | access i =>
      obtain ⟨k, hi, hk, hshifted⟩ := hs
      exact access_proceeds hmax hi hk hshifted
  | rename i =>
      obtain ⟨k, rfl, hk, hshifted⟩ := hs
      exact rename_proceeds hmax hk hshifted
  | returned r => exact hs.elim

/-- The file above the one about to be renamed is not there. -/
theorem Rotating.targetFree {s : Dir × ShiftPc} (hs : Rotating file_name N d₀ s) :
    TargetFree file_name s := by
  obtain ⟨d, pc⟩ := s
  intro i hpc new_file hnew
  obtain rfl : pc = .rename i := hpc
  obtain ⟨k, rfl, _, hshifted⟩ := hs
  rw [log_file_name_some (i := k + 1) hnew]
  exact hshifted.free

theorem Rotating.callsLeft_pos (hpos : 1 ≤ N) {s : Dir × ShiftPc}
    (hs : Rotating file_name N d₀ s) : 0 < callsLeft N s.2 := by
  obtain ⟨d, pc⟩ := s
  cases pc with
  | stat => exact Nat.succ_pos _
  | accessOldest => exact Nat.succ_pos _
  | removeOldest => exact Nat.mul_pos (by decide) hpos
  | access i => exact Nat.succ_pos _
  | rename i =>
      obtain ⟨k, hk, _⟩ := hs
      simp only [callsLeft]
      omega
  | returned r => exact hs.elim

/-! ## A whole call -/

/-- A call returns within `2 * N + 2` system calls, with `Rotated`. -/
theorem shift_files_returns (hN : log.max_log_num = N) (hpos : 1 ≤ N) (hmax : N ≤ 10 ^ 9)
    (file_name : List UInt8) (d₀ : Dir) {outcomes : List Bool}
    (henough : 2 * N + 2 ≤ outcomes.length) :
    ∃ calls r d, shift_files log file_name d₀ outcomes = (calls, .inr (.returned r d)) ∧
      Rotated log file_name N d₀ r d := by
  have hstep : ∀ (taken : List Bool) (s : Dir × ShiftPc) (succeeds : Bool) (s' : Dir × ShiftPc),
      (Rotating file_name N d₀ s ∧ taken.length + callsLeft N s.2 ≤ 2 * N + 2) → True →
      shiftBody log file_name s succeeds = .inl s' →
      Rotating file_name N d₀ s' ∧ (taken ++ [succeeds]).length + callsLeft N s'.2 ≤ 2 * N + 2 := by
    intro taken s succeeds s' hs _ hbody
    obtain ⟨hkept, hless⟩ := (shiftBody_step hN hpos hmax hs.1).kept hbody
    refine ⟨hkept, ?_⟩
    rw [List.length_append, List.length_singleton]
    omega
  have hadmits : Admits (shiftBody log file_name) (fun _ _ => True) (d₀, .stat) outcomes :=
    admits_of_invariant (I := fun _ => True) (fun _ _ _ _ _ => trivial) (fun _ _ _ => trivial)
      outcomes _ trivial
  rcases run_rule hstep outcomes [] (d₀, .stat) ⟨rfl, by simp [callsLeft]⟩ hadmits with
    ⟨s, _, hs⟩ | ⟨before, succeeds, after, s, out, _, hs, _, hleave, hrun⟩
  · -- a call still waiting would have used up all its system calls
    have hleft := hs.1.callsLeft_pos hpos
    have hbound : outcomes.length + callsLeft N s.2 ≤ 2 * N + 2 := hs.2
    omega
  · obtain ⟨r, d, rfl, hrotated⟩ := (shiftBody_step hN hpos hmax hs.1).left hleave
    exact ⟨_, r, d, hrun, hrotated⟩

/-- The calls before each `rename` find its new name free. -/
theorem shift_files_targetFree (hN : log.max_log_num = N) (hpos : 1 ≤ N) (hmax : N ≤ 10 ^ 9)
    (file_name : List UInt8) (d₀ : Dir) (outcomes : List Bool) :
    Admits (shiftBody log file_name) (fun s _ => TargetFree file_name s) (d₀, .stat) outcomes := by
  have hkeep : ∀ (s : Dir × ShiftPc) (succeeds : Bool) (s' : Dir × ShiftPc),
      Rotating file_name N d₀ s → shiftBody log file_name s succeeds = .inl s' →
      Rotating file_name N d₀ s' := by
    intro s succeeds s' hs hbody
    exact ((shiftBody_step hN hpos hmax hs).kept hbody).1
  exact admits_of_invariant hkeep (fun s _ hs => hs.targetFree) outcomes (d₀, .stat) rfl

/-- Where a rotation stops, every file but the oldest is still there. -/
theorem stopped_keeps
    (h : d = d₀ ∨ ∃ k < N, Rotation.Shifted (logName file_name) N k d₀ d) :
    (∃ place : Nat → Nat, Set.InjOn place {i | i ≠ N - 1} ∧
      ∀ i, i ≠ N - 1 → d (logName file_name (place i)) = d₀ (logName file_name i)) ∧
      ∀ key, (∀ i < N, key ≠ logName file_name i) → d key = d₀ key := by
  rcases h with rfl | ⟨k, _, hshifted⟩
  · exact ⟨⟨fun i => i, Set.injOn_id _, fun i _ => rfl⟩, fun key _ => rfl⟩
  · have hbeyond : ∀ i, N ≤ i → d (logName file_name i) = d₀ (logName file_name i) := by
      intro i hi
      refine hshifted.others _ fun j hj hsame => ?_
      have hij := (logName_inj file_name).mp hsame
      omega
    exact ⟨⟨Rotation.place N k, Rotation.place_injOn N k, fun i => hshifted.placed hbeyond⟩,
      hshifted.others⟩

end Calls

/-- **Rotation.**  Started with a full current file, `shift_files` returns, and no
`rename` finds a file at its new name.  After 0 every file but the oldest is one place
up and the current one is gone; after -1 every file but the oldest is still there, in
a place of its own.  Other files are never touched. -/
theorem shift_files_keeps (log : Log) (N : Nat) (hN : log.max_log_num = N) (hpos : 1 ≤ N)
    (hmax : N ≤ 10 ^ 9) (file_name : List UInt8) (d₀ : Dir)
    (hfull : FullAt log d₀ (logName file_name 0)) (outcomes : List Bool)
    (henough : 2 * N + 2 ≤ outcomes.length) :
    Admits (shiftBody log file_name) (fun s _ => TargetFree file_name s) (d₀, .stat) outcomes ∧
      ∃ calls r d, shift_files log file_name d₀ outcomes = (calls, .inr (.returned r d)) ∧
        (r = 0 ∨ r = -1) ∧
        (r = 0 →
          (∀ i, i + 2 ≤ N → d (logName file_name (i + 1)) = d₀ (logName file_name i)) ∧
            d (logName file_name 0) = none) ∧
        (r = -1 →
          ∃ place : Nat → Nat, Set.InjOn place {i | i ≠ N - 1} ∧
            ∀ i, i ≠ N - 1 → d (logName file_name (place i)) = d₀ (logName file_name i)) ∧
        (∀ key, (∀ i < N, key ≠ logName file_name i) → d key = d₀ key) := by
  obtain ⟨calls, r, d, hrun, hrotated⟩ :=
    shift_files_returns hN hpos hmax file_name d₀ henough
  refine ⟨shift_files_targetFree hN hpos hmax file_name d₀ outcomes, calls, r, d, hrun, ?_⟩
  rcases hrotated with ⟨_, _, hnot⟩ | ⟨rfl, hshifted⟩ | ⟨rfl, hstopped⟩
  · exact absurd hfull hnot
  · refine ⟨Or.inl rfl, fun _ => ⟨?_, hshifted.free⟩, fun hr => absurd hr (by decide),
      hshifted.others⟩
    intro i hi
    exact hshifted.moved i (Nat.zero_le i) (by omega)
  · obtain ⟨hplaces, hothers⟩ := stopped_keeps hstopped
    exact ⟨Or.inr rfl, fun hr => absurd hr (by decide), fun _ => hplaces, hothers⟩

/-- Files 0, 1 and 3 of a log of four, where the second `rename` fails. -/
theorem shift_files_keeps_four :
    let log : Log := ⟨2, 4⟩
    let d₀ : Dir := fun name =>
      if name = logName [97] 0 then some [5, 6, 7]
      else if name = logName [97] 1 then some [8]
      else if name = logName [97] 3 then some [9]
      else none
    let outcomes := [true, true, true, true, true, true, true, false, true, true]
    Admits (shiftBody log [97]) (fun s _ => TargetFree [97] s) (d₀, .stat) outcomes ∧
      ∃ calls r d, shift_files log [97] d₀ outcomes = (calls, .inr (.returned r d)) ∧
        (r = 0 ∨ r = -1) ∧
        (r = 0 → (∀ i, i + 2 ≤ 4 → d (logName [97] (i + 1)) = d₀ (logName [97] i)) ∧
          d (logName [97] 0) = none) ∧
        (r = -1 → ∃ place : Nat → Nat, Set.InjOn place {i | i ≠ 4 - 1} ∧
          ∀ i, i ≠ 4 - 1 → d (logName [97] (place i)) = d₀ (logName [97] i)) ∧
        (∀ key, (∀ i < 4, key ≠ logName [97] i) → d key = d₀ key) :=
  shift_files_keeps ⟨2, 4⟩ 4 rfl (by decide) (by decide) [97] _
    ⟨[5, 6, 7], if_pos rfl, by decide⟩ _ (by decide)

end MyGenSvr.Ports
