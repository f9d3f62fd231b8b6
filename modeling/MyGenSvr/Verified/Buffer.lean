import Mathlib

/-!
# Byte ranges of an allocated block

A block of memory is the list of its bytes.  `load` and `store` are the checked
accesses: an access that would leave the block is `none`, so a program written
with them cannot hide an overrun.  `splice` is the unchecked store of a program
that does its own bounds test; past the end it grows the list, which is how an
overrun shows.

`strlen` scans for the first zero byte; the byte just past the list counts as
zero, so a list stands for memory that does hold a terminator somewhere.
-/

namespace MyGenSvr.Verified.Buffer

/-- The `len` bytes at offset `off`, if they lie inside the block. -/
def load (m : List UInt8) (off len : Nat) : Option (List UInt8) :=
  if off + len ≤ m.length then some ((m.drop off).take len) else none

/-- Overwrite the bytes from `off` on with `src`. -/
def splice (m : List UInt8) (off : Nat) (src : List UInt8) : List UInt8 :=
  m.take off ++ src ++ m.drop (off + src.length)

/-- `splice`, if the bytes written lie inside the block. -/
def store (m : List UInt8) (off : Nat) (src : List UInt8) :
    Option (List UInt8) :=
  if off + src.length ≤ m.length then some (splice m off src) else none

/-- The number of bytes before the first zero byte. -/
def strlen (m : List UInt8) : Nat := (m.takeWhile (· ≠ 0)).length

theorem load_eq_some {m : List UInt8} {off len : Nat}
    (h : off + len ≤ m.length) :
    load m off len = some ((m.drop off).take len) := if_pos h

theorem store_eq_some {m : List UInt8} {off : Nat} {src : List UInt8}
    (h : off + src.length ≤ m.length) : store m off src = some (splice m off src) :=
  if_pos h

theorem length_take_drop {m : List UInt8} {off len : Nat}
    (h : off + len ≤ m.length) : ((m.drop off).take len).length = len := by
  rw [List.length_take, List.length_drop]
  omega

/-! ## Splicing -/

theorem splice_length {m : List UInt8} {off : Nat} {src : List UInt8}
    (h : off + src.length ≤ m.length) : (splice m off src).length = m.length := by
  simp only [splice, List.length_append, List.length_take, List.length_drop]
  omega

/-- The part below the splice is kept, and the written bytes follow it. -/
theorem splice_take {m : List UInt8} {off : Nat} {src : List UInt8}
    (h : off ≤ m.length) :
    (splice m off src).take (off + src.length) = m.take off ++ src := by
  have hlen : (m.take off ++ src).length = off + src.length := by
    rw [List.length_append, List.length_take, Nat.min_eq_left h]
  rw [splice, List.take_append_of_le_length (by omega), ← hlen, List.take_length]

theorem splice_take_below {m : List UInt8} {off k : Nat} {src : List UInt8}
    (h : off ≤ m.length) (hk : k ≤ off) :
    (splice m off src).take k = m.take k := by
  have hlen : k ≤ (m.take off).length := by
    rw [List.length_take]
    omega
  rw [splice, List.append_assoc, List.take_append_of_le_length hlen, List.take_take,
    Nat.min_eq_left hk]

theorem splice_drop_above {m : List UInt8} {off : Nat} {src : List UInt8}
    (h : off ≤ m.length) :
    (splice m off src).drop (off + src.length) = m.drop (off + src.length) := by
  have hlen : (m.take off ++ src).length = off + src.length := by
    rw [List.length_append, List.length_take, Nat.min_eq_left h]
  rw [splice, ← hlen, List.drop_left]

/-- Reading a spliced range back. -/
theorem splice_range {m : List UInt8} {off : Nat} {src : List UInt8}
    (h : off ≤ m.length) :
    ((splice m off src).drop off).take src.length = src := by
  have hlen : (m.take off).length = off := by
    rw [List.length_take, Nat.min_eq_left h]
  have hsrc : (m.take off ++ (src ++ m.drop (off + src.length))).drop off =
      src ++ m.drop (off + src.length) := by
    have hleft : (m.take off ++ (src ++ m.drop (off + src.length))).drop
        (m.take off).length = src ++ m.drop (off + src.length) := List.drop_left
    rwa [hlen] at hleft
  rw [splice, List.append_assoc, hsrc, List.take_left]

/-- Two adjacent splices are one. -/
theorem splice_splice {m : List UInt8} {off : Nat} {xs ys : List UInt8}
    (h : off ≤ m.length) :
    splice (splice m off xs) (off + xs.length) ys = splice m off (xs ++ ys) := by
  have hlow := @splice_take m off xs h
  have hhigh : (splice m off xs).drop (off + xs.length + ys.length) =
      m.drop (off + (xs ++ ys).length) := by
    rw [← List.drop_drop, splice_drop_above h, List.drop_drop, List.length_append,
      ← Nat.add_assoc]
  rw [splice, hlow, hhigh, splice]
  simp only [List.append_assoc]

/-- A splice at the front keeps the rest. -/
theorem splice_zero (m src : List UInt8) :
    splice m 0 src = src ++ m.drop src.length := by
  simp [splice]

/-! ## Windows -/

/-- The part of a range that lies in the block. -/
def window (m : List UInt8) (off len : Nat) : List UInt8 := (m.drop off).take len

section Windows

variable {m src : List UInt8} {off o n : Nat}

/-- A window below the splice is kept. -/
theorem window_splice_below (h : off ≤ m.length) (hbelow : o + n ≤ off) :
    window (splice m off src) o n = window m o n := by
  rw [window, window, List.take_drop, List.take_drop, splice_take_below h hbelow]

/-- So is one above. -/
theorem window_splice_above (h : off ≤ m.length) (habove : off + src.length ≤ o) :
    window (splice m off src) o n = window m o n := by
  obtain ⟨k, rfl⟩ := Nat.exists_eq_add_of_le habove
  rw [window, window, ← List.drop_drop, splice_drop_above h, List.drop_drop]

/-- A window that starts where the splice does has the written bytes in front. -/
theorem window_splice_prefix (h : off ≤ m.length) (hlen : src.length ≤ n) :
    window (splice m off src) off n = src ++ window m (off + src.length) (n - src.length) := by
  have hdrop : (splice m off src).drop off = src ++ m.drop (off + src.length) := by
    have hcut : (m.take off).length = off := by
      rw [List.length_take, Nat.min_eq_left h]
    rw [splice, List.append_assoc, List.drop_append_of_le_length (le_of_eq hcut.symm),
      List.drop_take, Nat.sub_self, List.take_zero, List.nil_append]
  rw [window, hdrop, List.take_append, List.take_of_length_le hlen, window]

end Windows

/-! ## Terminated strings -/

theorem strlen_append_zero {s : List UInt8} (hs : (0 : UInt8) ∉ s)
    (rest : List UInt8) : strlen (s ++ 0 :: rest) = s.length := by
  have hall : ∀ b ∈ s, decide (b ≠ 0) = true := by
    intro b hb
    have hne : b ≠ 0 := fun h => hs (h ▸ hb)
    simp [hne]
  rw [strlen, List.takeWhile_append_of_pos hall]
  simp

/-- Either the scan stops at a zero inside `s`, or it runs through all of it. -/
theorem strlen_append (s rest : List UInt8) :
    strlen (s ++ rest) =
      if (0 : UInt8) ∈ s then strlen s else s.length + strlen rest := by
  induction s with
  | nil => simp
  | cons b s ih =>
      by_cases hb : b = 0
      · subst hb
        simp [strlen]
      · have hstep : ∀ t, strlen (b :: t) = strlen t + 1 := by
          intro t
          simp [strlen, hb]
        have hmem : (0 : UInt8) ∈ b :: s ↔ (0 : UInt8) ∈ s := by
          simp [Ne.symm hb]
        rw [List.cons_append, hstep, ih, hstep, if_congr hmem rfl rfl,
          List.length_cons]
        split <;> omega

/-- A zero byte ends the scan before the end. -/
theorem strlen_lt_of_mem {m : List UInt8} (hm : (0 : UInt8) ∈ m) : strlen m < m.length := by
  obtain ⟨s, rest, hsplit, hs⟩ := List.eq_append_cons_of_mem hm
  rw [hsplit, strlen_append_zero hs, List.length_append, List.length_cons]
  omega

/-- The scan stops no later than at any zero byte. -/
theorem strlen_le_of_getElem? {m : List UInt8} {i : Nat} (h : m[i]? = some 0) :
    strlen m ≤ i := by
  induction m generalizing i with
  | nil => simp at h
  | cons b m ih =>
      cases i with
      | zero =>
          rw [List.getElem?_cons_zero, Option.some.injEq] at h
          simp [strlen, h]
      | succ i =>
          rw [List.getElem?_cons_succ] at h
          have htail := ih h
          by_cases hb : b = 0
          · simp [strlen, hb]
          · have hstep : strlen (b :: m) = strlen m + 1 := by simp [strlen, hb]
            omega

end MyGenSvr.Verified.Buffer
