import MyGenSvr.Verified.Machine

/-!
# A tape

Symbols are written at the end of a tape, as long as there is room, and read at a position
that moves forward; the position can be set to any place that is written, the last symbols
that are not read can be taken back, and the tape can be cleared.

## Main results

* `fifo` — through writes and reads no symbol is lost, doubled or overtaken.
-/

namespace MyGenSvr.Verified.BoundedTape

open MyGenSvr.Verified.Machine

variable {α : Type*}

/-- A tape with room for `cap` symbols. -/
structure Tape (α : Type*) where
  cap : Nat
  written : List α
  pos : Nat
  written_le : written.length ≤ cap
  pos_le : pos ≤ written.length

/-- What is asked of a tape. -/
inductive TapeOp (α : Type*) where
  | write (xs : List α)
  | read (n : Nat)
  | seek (d : Int)
  | unwrite (k : Nat)
  | clear

namespace Tape

/-- The symbols behind the position. -/
def unread (t : Tape α) : List α := t.written.drop t.pos

def write (t : Tape α) (xs : List α) : Option (Tape α) :=
  if h : t.written.length + xs.length ≤ t.cap then
    some
      { cap := t.cap
        written := t.written ++ xs
        pos := t.pos
        written_le := by rw [List.length_append]; exact h
        pos_le := by rw [List.length_append]; exact Nat.le_add_right_of_le t.pos_le }
  else none

def read (t : Tape α) (n : Nat) : Option (List α × Tape α) :=
  if h : t.pos + n ≤ t.written.length then
    some (t.unread.take n, { t with pos := t.pos + n, pos_le := h })
  else none

def seek (t : Tape α) (d : Int) : Option (Tape α) :=
  if h : 0 ≤ t.pos + d ∧ t.pos + d ≤ t.written.length then
    some { t with pos := (t.pos + d).toNat, pos_le := by omega }
  else none

def unwrite (t : Tape α) (k : Nat) : Option (Tape α) :=
  if h : t.pos + k ≤ t.written.length then
    some
      { cap := t.cap
        written := t.written.take (t.written.length - k)
        pos := t.pos
        written_le := (List.length_take_le' _ _).trans t.written_le
        pos_le := by rw [List.length_take]; omega }
  else none

def clear (t : Tape α) : Tape α := ⟨t.cap, [], 0, Nat.zero_le _, Nat.le_refl _⟩

/-- Whether it is done, and the tape afterwards. -/
def returning (t : Tape α) : Option (Tape α) → (Bool × List α) × Tape α
  | some t' => ((true, []), t')
  | none => ((false, []), t)

/-- Whether an operation is done, what it reads, and the tape afterwards. -/
def step (t : Tape α) : TapeOp α → (Bool × List α) × Tape α
  | .write xs => t.returning (t.write xs)
  | .read n =>
      match t.read n with
      | some (xs, t') => ((true, xs), t')
      | none => ((false, []), t)
  | .seek d => t.returning (t.seek d)
  | .unwrite k => t.returning (t.unwrite k)
  | .clear => ((true, []), t.clear)

end Tape

/-! ## First in, first out -/

section Queue

variable {t t' : Tape α} {xs : List α} {n : Nat}

theorem unread_of_write (h : t.write xs = some t') : t'.unread = t.unread ++ xs := by
  rw [Tape.write] at h
  split at h
  · rw [← Option.some.inj h]
    exact List.drop_append_of_le_length t.pos_le
  · cases h

theorem unread_of_read (h : t.read n = some (xs, t')) : t.unread = xs ++ t'.unread := by
  rw [Tape.read] at h
  split at h
  · obtain ⟨rfl, rfl⟩ := Prod.mk.inj (Option.some.inj h)
    have hsplit := List.take_append_drop n t.unread
    rw [Tape.unread, List.drop_drop] at hsplit
    exact hsplit.symm
  · cases h

/-- A write or a read. -/
def TapeOp.IsQueue : TapeOp α → Prop
  | .write _ | .read _ => True
  | _ => False

/-- What one operation has put on the tape, by its outcome. -/
def appended : TapeOp α × (Bool × List α) → List α
  | (.write xs, (true, _)) => xs
  | _ => []

/-- **First in, first out.** -/
theorem fifo (ops : List (TapeOp α)) (hqueue : ∀ op ∈ ops, op.IsQueue) : ∀ t : Tape α,
    t.unread ++ (ops.zip (outputs Tape.step t ops)).flatMap appended =
      (outputs Tape.step t ops).flatMap Prod.snd ++ (final Tape.step t ops).unread := by
  induction ops with
  | nil =>
      intro t
      exact List.append_nil _
  | cons op ops ih =>
      intro t
      have hrest := ih (fun op' hop => hqueue op' (List.mem_cons_of_mem op hop)) (t.step op).2
      have hstep : t.unread ++ appended (op, (t.step op).1) =
          (t.step op).1.2 ++ (t.step op).2.unread := by
        cases op with
        | write xs =>
            rw [Tape.step]
            cases hwrite : t.write xs with
            | some t' => exact (unread_of_write hwrite).symm
            | none => exact List.append_nil _
        | read n =>
            rw [Tape.step]
            cases hread : t.read n with
            | some out => exact (List.append_nil _).trans (unread_of_read hread)
            | none => exact List.append_nil _
        | seek d => exact absurd (hqueue _ List.mem_cons_self) id
        | unwrite k => exact absurd (hqueue _ List.mem_cons_self) id
        | clear => exact absurd (hqueue _ List.mem_cons_self) id
      rw [outputs, final, List.zip_cons_cons, List.flatMap_cons, List.flatMap_cons,
        ← List.append_assoc, hstep, List.append_assoc, hrest, List.append_assoc]

end Queue

end MyGenSvr.Verified.BoundedTape
