import Mathlib

/-!
# Cutting a stream into frames, one frame per delivery

A framing looks at the front of a buffer and says whether a complete frame is
there, whether the front can never become one, or whether more input is needed.
`Framer.frames` is the greedy cut of a whole stream.  `deliver` is a receiver
that buffers each chunk and takes **at most one** frame out per delivery.

## Main results

* `deliver_run_inv` — nothing is lost, duplicated or reordered: what was served
  followed by what is buffered is what was received, and what was served is the
  front part of the greedy cut of the stream.
* `drained_iff_paced` — exactly when the one-frame-per-delivery receiver keeps
  up: it has served every complete frame iff no suffix of the deliveries
  completes more frames than it has deliveries.
-/

namespace MyGenSvr.Verified.Framing

/-- What the front of a buffer holds. -/
inductive Front where
  | more
  | bad
  | frame (n : Nat)
  deriving DecidableEq, Repr

/-- A framing: verdicts about a front are final once given, and a frame is a
nonempty part of the buffer. -/
structure Framer (α : Type*) where
  front : List α → Front
  frame_pos : ∀ {bs n}, front bs = .frame n → 0 < n
  frame_le : ∀ {bs n}, front bs = .frame n → n ≤ bs.length
  frame_append : ∀ {bs n} (later : List α),
    front bs = .frame n → front (bs ++ later) = .frame n
  bad_append : ∀ {bs} (later : List α), front bs = .bad → front (bs ++ later) = .bad

variable {α : Type*} (f : Framer α)

/-! ## The greedy cut -/

/-- All complete frames at the front of `bs`, up to the first bad front. -/
def Framer.frames (bs : List α) : List (List α) :=
  match h : f.front bs with
  | .frame n =>
      have : (bs.drop n).length < bs.length := by
        have hpos := f.frame_pos h
        have hle := f.frame_le h
        rw [List.length_drop]
        omega
      bs.take n :: Framer.frames (bs.drop n)
  | _ => []
termination_by bs.length
decreasing_by exact this

theorem frames_of_frame {bs : List α} {n : Nat} (h : f.front bs = .frame n) :
    f.frames bs = bs.take n :: f.frames (bs.drop n) := by
  rw [Framer.frames]
  split
  · next m hm =>
      rw [h, Front.frame.injEq] at hm
      subst hm
      rfl
  · next hne => exact absurd h (hne n)

theorem frames_of_more {bs : List α} (h : f.front bs = .more) :
    f.frames bs = [] := by
  rw [Framer.frames]
  split
  · next m hm => rw [h] at hm; cases hm
  · rfl

theorem frames_of_bad {bs : List α} (h : f.front bs = .bad) :
    f.frames bs = [] := by
  rw [Framer.frames]
  split
  · next m hm => rw [h] at hm; cases hm
  · rfl

/-- A buffer holds no complete frame exactly when its front is not one. -/
theorem frames_eq_nil_iff (bs : List α) :
    f.frames bs = [] ↔ ∀ n, f.front bs ≠ .frame n := by
  cases h : f.front bs with
  | more => simp [frames_of_more f h]
  | bad => simp [frames_of_bad f h]
  | frame n => simp [frames_of_frame f h]

/-- Taking the first frame off commutes with appending more input. -/
theorem frames_append_of_frame {bs : List α} {n : Nat} (later : List α)
    (h : f.front bs = .frame n) :
    f.frames (bs ++ later) = bs.take n :: f.frames (bs.drop n ++ later) := by
  have hle := f.frame_le h
  rw [frames_of_frame f (f.frame_append later h),
    List.take_append_of_le_length hle, List.drop_append_of_le_length hle]

/-- Receiving more never takes a complete frame back. -/
theorem frames_prefix_append (bs later : List α) :
    f.frames bs <+: f.frames (bs ++ later) := by
  induction hlen : bs.length using Nat.strongRecOn generalizing bs with
  | ind k ih =>
      cases h : f.front bs with
      | more => rw [frames_of_more f h]; exact List.nil_prefix
      | bad => rw [frames_of_bad f h]; exact List.nil_prefix
      | frame n =>
          have hpos := f.frame_pos h
          have hle := f.frame_le h
          have hshort : (bs.drop n).length < k := by
            rw [List.length_drop]
            omega
          rw [frames_of_frame f h, frames_append_of_frame f later h]
          exact List.prefix_cons_inj _ |>.mpr (ih _ hshort (bs.drop n) rfl)

/-- A frame of the cut is one at the front of what it was cut from. -/
theorem front_of_mem_frames {bs q : List α} (hq : q ∈ f.frames bs) :
    ∃ later, f.front (q ++ later) = .frame q.length := by
  induction hlen : bs.length using Nat.strongRecOn generalizing bs with
  | ind k ih =>
      cases h : f.front bs with
      | more =>
          rw [frames_of_more f h] at hq
          cases hq
      | bad =>
          rw [frames_of_bad f h] at hq
          cases hq
      | frame n =>
          have hpos := f.frame_pos h
          have hle := f.frame_le h
          rw [frames_of_frame f h] at hq
          rcases List.mem_cons.mp hq with rfl | hlater
          · refine ⟨bs.drop n, ?_⟩
            rw [List.take_append_drop, h, List.length_take, Nat.min_eq_left hle]
          · exact ih _ (by rw [List.length_drop]; omega) hlater rfl

/-- Nothing holds no frame. -/
theorem frames_nil : f.frames [] = [] := by
  rw [frames_eq_nil_iff]
  intro n hn
  have hpos := f.frame_pos hn
  have hle := f.frame_le hn
  rw [List.length_nil] at hle
  omega

/-- **Whole frames one behind the other are cut where they meet.** -/
theorem frames_flatten {qs : List (List α)} (hqs : ∀ q ∈ qs, f.front q = .frame q.length)
    (later : List α) : f.frames (qs.flatten ++ later) = qs ++ f.frames later := by
  induction qs with
  | nil => rfl
  | cons q qs ih =>
      have hq := hqs q List.mem_cons_self
      have hrest := ih fun q' hq' => hqs q' (List.mem_cons_of_mem q hq')
      rw [List.flatten_cons, List.append_assoc, frames_append_of_frame f _ hq,
        List.take_length, List.drop_length, List.nil_append, hrest, List.cons_append]

/-- A part of such a stream is cut into the frames that are whole in it. -/
theorem frames_of_part {qs : List (List α)} (hqs : ∀ q ∈ qs, f.front q = .frame q.length)
    {part : List α} (hpart : part <+: qs.flatten) : f.frames part <+: qs := by
  obtain ⟨later, hlater⟩ := hpart
  have hall := frames_flatten f hqs []
  rw [List.append_nil, frames_nil, List.append_nil] at hall
  rw [← hall, ← hlater]
  exact frames_prefix_append f part later

/-! ## A receiver that serves at most one frame per delivery -/

/-- The receiver's side of one connection. -/
structure Conn (α : Type*) where
  buf : List α
  served : List (List α)
  live : Bool

/-- A connection nothing has been received on. -/
def Conn.fresh : Conn α := ⟨[], [], true⟩

/-- Buffer one chunk, then look at the front once: serve a complete frame,
give the connection up on a bad front, or wait. -/
def deliver (c : Conn α) (chunk : List α) : Conn α :=
  if c.live then
    match f.front (c.buf ++ chunk) with
    | .more => { c with buf := c.buf ++ chunk }
    | .bad => { c with buf := c.buf ++ chunk, live := false }
    | .frame n =>
        { c with
          buf := (c.buf ++ chunk).drop n
          served := c.served ++ [(c.buf ++ chunk).take n] }
  else c

/-- The connection after a list of deliveries. -/
def deliverAll (c : Conn α) (chunks : List (List α)) : Conn α :=
  chunks.foldl (deliver f) c

@[simp] theorem deliverAll_nil (c : Conn α) : deliverAll f c [] = c := rfl

theorem deliverAll_concat (c : Conn α) (chunks : List (List α))
    (chunk : List α) :
    deliverAll f c (chunks ++ [chunk]) = deliver f (deliverAll f c chunks) chunk := by
  simp only [deliverAll, List.foldl_append, List.foldl_cons, List.foldl_nil]

/-- What ties a connection to the bytes received for it so far. -/
structure Tracks (c : Conn α) (received : List α) : Prop where
  bytes : c.served.flatten ++ c.buf <+: received
  live_bytes : c.live = true → c.served.flatten ++ c.buf = received
  cut : f.frames received = c.served ++ f.frames c.buf
  cut_append : ∀ later, f.frames (c.served.flatten ++ c.buf ++ later) =
    c.served ++ f.frames (c.buf ++ later)
  dead_bad : c.live = false → f.front c.buf = .bad

theorem tracks_fresh : Tracks f (Conn.fresh : Conn α) [] where
  bytes := List.prefix_rfl
  live_bytes := fun _ => rfl
  cut := rfl
  cut_append := fun _ => rfl
  dead_bad := by simp [Conn.fresh]

/-- **One delivery keeps the books.**  The three verdicts of the front are the
three cases; on a connection already given up nothing moves, and the bad front
hides whatever the peer still sends. -/
theorem Tracks.deliver {c : Conn α} {received : List α} (h : Tracks f c received)
    (chunk : List α) :
    Tracks f (deliver f c chunk) (received ++ chunk) := by
  cases hlive : c.live with
  | false =>
      have hbad := h.dead_bad hlive
      have hstay : Framing.deliver f c chunk = c := by
        simp [Framing.deliver, hlive]
      obtain ⟨later, hlater⟩ := h.bytes
      rw [hstay]
      refine ⟨?_, by simp [hlive], ?_, h.cut_append, h.dead_bad⟩
      · exact h.bytes.trans (List.prefix_append _ _)
      · rw [← hlater, List.append_assoc _ later, h.cut_append,
          frames_of_bad f (f.bad_append _ hbad), frames_of_bad f hbad]
  | true =>
      have hbytes := h.live_bytes hlive
      have hall : f.frames (received ++ chunk) =
          c.served ++ f.frames (c.buf ++ chunk) := by
        rw [← hbytes, h.cut_append]
      have hmore : ∀ later, f.frames (c.served.flatten ++ (c.buf ++ chunk) ++ later) =
          c.served ++ f.frames (c.buf ++ chunk ++ later) := by
        intro later
        have h' := h.cut_append (chunk ++ later)
        simpa only [List.append_assoc] using h'
      simp only [Framing.deliver, hlive, if_true]
      cases hfront : f.front (c.buf ++ chunk) with
      | more =>
          exact
            { bytes := by simp [← hbytes]
              live_bytes := by simp [← hbytes]
              cut := hall
              cut_append := hmore
              dead_bad := by simp }
      | bad =>
          exact
            { bytes := by simp [← hbytes]
              live_bytes := by simp
              cut := hall
              cut_append := hmore
              dead_bad := fun _ => hfront }
      | frame n =>
          have hsplit : (c.buf ++ chunk).take n ++ (c.buf ++ chunk).drop n =
              c.buf ++ chunk := List.take_append_drop n _
          have hflat : (c.served ++ [(c.buf ++ chunk).take n]).flatten ++
              (c.buf ++ chunk).drop n = received ++ chunk := by
            rw [List.flatten_append, List.flatten_singleton, List.append_assoc,
              hsplit, ← List.append_assoc, hbytes]
          refine
            { bytes := by rw [hflat]
              live_bytes := fun _ => hflat
              cut := ?_
              cut_append := ?_
              dead_bad := by simp }
          · rw [hall, frames_of_frame f hfront, List.append_assoc,
              List.singleton_append]
          · intro later
            rw [hflat, ← hbytes, List.append_assoc c.served.flatten, hmore,
              frames_append_of_frame f later hfront, List.append_assoc,
              List.singleton_append]

/-- **Nothing is lost, duplicated or reordered** over any list of deliveries. -/
theorem deliver_run_inv (chunks : List (List α)) :
    Tracks f (deliverAll f Conn.fresh chunks) chunks.flatten := by
  induction chunks using List.reverseRecOn with
  | nil => exact tracks_fresh f
  | append_singleton chunks chunk ih =>
      rw [deliverAll_concat, List.flatten_append, List.flatten_singleton]
      exact ih.deliver f chunk

/-! ## When one frame per delivery keeps up -/

/-- Complete frames that sit unserved in the buffer. -/
def backlog (c : Conn α) : Nat := (f.frames c.buf).length

/-- **One step of the queue.**  A delivery adds the frames it completes to
the backlog and takes one off, if there is one. -/
theorem backlog_deliver {c : Conn α} {received : List α}
    (h : Tracks f c received) (chunk : List α) :
    backlog f (deliver f c chunk) =
      backlog f c +
        ((f.frames (received ++ chunk)).length - (f.frames received).length) - 1 := by
  have hbefore := congrArg List.length h.cut
  have hafter := congrArg List.length (h.deliver f chunk).cut
  have hmono := (frames_prefix_append f received chunk).length_le
  simp only [List.length_append] at hbefore hafter
  unfold backlog
  cases hlive : c.live with
  | false =>
      have hzero : f.frames c.buf = [] := frames_of_bad f (h.dead_bad hlive)
      have hstay : deliver f c chunk = c := by simp [deliver, hlive]
      rw [hstay, hzero, List.length_nil] at hafter
      rw [hzero, List.length_nil] at hbefore
      rw [hstay, hzero, List.length_nil]
      omega
  | true =>
      simp only [deliver, hlive, if_true] at hafter ⊢
      cases hfront : f.front (c.buf ++ chunk) with
      | more =>
          simp only [hfront, frames_of_more f hfront, List.length_nil] at hafter ⊢
          omega
      | bad =>
          simp only [hfront, frames_of_bad f hfront, List.length_nil] at hafter ⊢
          omega
      | frame n =>
          simp only [hfront, List.length_append, List.length_singleton] at hafter ⊢
          omega

/-! ## The burst bound -/

/-- The first `j` deliveries of `chunks` complete this many frames. -/
def completed (chunks : List (List α)) (j : Nat) : Nat :=
  (f.frames (chunks.take j).flatten).length

/-- No suffix of the deliveries completes more frames than it has deliveries. -/
def Paced (chunks : List (List α)) : Prop :=
  ∀ j ≤ chunks.length,
    completed f chunks chunks.length ≤ completed f chunks j + (chunks.length - j)

instance (chunks : List (List α)) : Decidable (Paced f chunks) := by
  unfold Paced
  infer_instance

theorem completed_length (chunks : List (List α)) :
    completed f chunks chunks.length = (f.frames chunks.flatten).length := by
  rw [completed, List.take_length]

theorem completed_concat (chunks : List (List α)) (chunk : List α) {j : Nat}
    (hj : j ≤ chunks.length) :
    completed f (chunks ++ [chunk]) j = completed f chunks j := by
  rw [completed, completed, List.take_append_of_le_length hj]

/-- The backlog after a run is at most `m` exactly when no suffix of the
deliveries completes more than `m` frames beyond its own length. -/
theorem backlog_le_iff (chunks : List (List α)) (m : Nat) :
    backlog f (deliverAll f Conn.fresh chunks) ≤ m ↔
      ∀ j ≤ chunks.length,
        completed f chunks chunks.length ≤
          completed f chunks j + (chunks.length - j) + m := by
  induction chunks using List.reverseRecOn generalizing m with
  | nil =>
      have hempty : f.frames ([] : List α) = [] := by
        rw [frames_eq_nil_iff]
        intro n hn
        have hpos := f.frame_pos hn
        have hle := f.frame_le hn
        rw [List.length_nil] at hle
        omega
      simp [backlog, Conn.fresh, hempty, completed]
  | append_singleton chunks chunk ih =>
      have hstep := backlog_deliver f (deliver_run_inv f chunks) chunk
      have hmono := (frames_prefix_append f chunks.flatten chunk).length_le
      have hnow := completed_length f chunks
      have hnext : completed f (chunks ++ [chunk]) (chunks ++ [chunk]).length =
          (f.frames (chunks.flatten ++ chunk)).length := by
        rw [completed_length, List.flatten_append, List.flatten_singleton]
      rw [deliverAll_concat, hstep, hnext, List.length_append,
        List.length_singleton]
      -- the frames `chunk` completes eat into the slack of every earlier suffix
      constructor
      · intro hle j hj
        rcases Nat.lt_or_ge chunks.length j with hlast | hearlier
        · have hj' : j = (chunks ++ [chunk]).length := by
            rw [List.length_append, List.length_singleton]
            omega
          rw [hj', hnext]
          omega
        · rw [completed_concat f chunks chunk hearlier]
          have hslack := (ih (m + 1 - ((f.frames (chunks.flatten ++ chunk)).length -
            (f.frames chunks.flatten).length))).mp (by omega) j hearlier
          omega
      · intro hall
        have hlast := hall chunks.length (by omega)
        rw [completed_concat f chunks chunk (Nat.le_refl _), hnow] at hlast
        have hslack := (ih (m + 1 - ((f.frames (chunks.flatten ++ chunk)).length -
          (f.frames chunks.flatten).length))).mpr (by
            intro j hj
            have h := hall j (by omega)
            rw [completed_concat f chunks chunk hj] at h
            omega)
        omega

/-- **When one frame per delivery keeps up.**  Every complete frame of the
stream has been served exactly when the deliveries are paced. -/
theorem drained_iff_paced (chunks : List (List α)) :
    (deliverAll f Conn.fresh chunks).served = f.frames chunks.flatten ↔
      Paced f chunks := by
  have hcut := (deliver_run_inv f chunks).cut
  have hzero := backlog_le_iff f chunks 0
  simp only [Nat.add_zero, Nat.le_zero] at hzero
  rw [hcut, Paced, ← hzero, backlog, List.length_eq_zero_iff]
  constructor
  · intro h
    exact List.append_right_eq_self.mp h.symm
  · intro h
    rw [h, List.append_nil]

end MyGenSvr.Verified.Framing
