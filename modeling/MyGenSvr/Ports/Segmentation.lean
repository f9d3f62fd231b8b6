import MyGenSvr.Ports.ReactorRun

/-!
# Cutting a stream into `recv` chunks

`HandleRead` takes at most one frame out of the receive buffer per event, so
what it has dispatched after a stream depends on how the stream was cut.  The
abstract receiver of `Verified.Framing` says exactly when nothing is left
behind.

## Main results

* `segmentation_iff` — two cuttings of a stream are served alike and to the end
  exactly when both are paced (and, where `size_t` has 32 bits, no header wraps).
* `pipelined_frames_left` — two frames in one chunk: the second one stays in the
  buffer.
-/

namespace MyGenSvr.Ports

open MyGenSvr.Verified.Buffer
open MyGenSvr.Verified.Framing
open MyGenSvr.Verified.Transition

/-- A connection was given the stream cut into `chunks`, one event a chunk, up
to the end or until it was closed for a bad length. -/
def Handled (w : Reactor) (e : Entry) (chunks : List (List UInt8)) : Prop :=
  (∃ fd, w.umapFdSockConn fd = some e ∧ e.hist.chunks = chunks) ∨
    (∃ fd, (fd, CloseReason.badLength, e) ∈ w.retired ∧ e.hist.chunks <+: chunks)

/-- Every complete frame of the stream, up to the first bad length, has been
dispatched and answered, and none is left whole in the receive buffer. -/
structure FullyServed (e : Entry) (stream : List UInt8) : Prop where
  dispatched : e.hist.requests = pkgFramer.frames stream
  answered : e.hist.replies.length = e.hist.requests.length
  none_left : ∀ n, pkgFront e.conn.buffered ≠ .frame n

/-- Deliveries to a receiver that has given up change nothing. -/
theorem deliverAll_dead {α : Type*} (f : Framer α) {c : Conn α} (hc : c.live = false)
    (chunks : List (List α)) : deliverAll f c chunks = c := by
  induction chunks with
  | nil => rfl
  | cons chunk chunks ih =>
      have hstay : deliver f c chunk = c := by
        rw [deliver, if_neg (by simp [hc])]
      rw [deliverAll, List.foldl_cons, hstay]
      exact ih

theorem deliverAll_append {α : Type*} (f : Framer α) (c : Conn α)
    (xs ys : List (List α)) :
    deliverAll f c (xs ++ ys) = deliverAll f (deliverAll f c xs) ys :=
  List.foldl_append

/-! ## Headers whose total wraps -/

/-- No header that comes to the front of the buffer announces a total that
wraps `size_t`; on a 64-bit host none can. -/
def Benign (h : Host) (chunks : List (List UInt8)) : Prop :=
  ∀ pre chunk, pre ++ [chunk] <+: chunks →
    (deliverAll pkgFramer .fresh pre).live = true →
    NoWrap h ((deliverAll pkgFramer .fresh pre).buf ++ chunk)

theorem Host.LP64.benign {h : Host} (h64 : h.LP64) (chunks : List (List UInt8)) :
    Benign h chunks := fun _ _ _ _ => h64.noWrap _

theorem benign_nil (h : Host) : Benign h [] := by
  intro pre chunk hpre
  have hlen := hpre.length_le
  simp at hlen

theorem benign_concat {h : Host} {chunks : List (List UInt8)} {chunk : List UInt8} :
    Benign h (chunks ++ [chunk]) ↔
      Benign h chunks ∧ ((deliverAll pkgFramer .fresh chunks).live = true →
        NoWrap h ((deliverAll pkgFramer .fresh chunks).buf ++ chunk)) := by
  constructor
  · intro hall
    refine ⟨?_, hall chunks chunk List.prefix_rfl⟩
    intro pre c hpre
    exact hall pre c (hpre.trans (List.prefix_append _ _))
  · rintro ⟨hbefore, hlast⟩ pre c hpre hlive
    rcases List.prefix_concat_iff.mp hpre with heq | hearlier
    · obtain ⟨rfl, hc⟩ := List.append_inj' heq rfl
      rw [List.cons.injEq] at hc
      exact hc.1 ▸ hlast hlive
    · exact hbefore pre c hearlier hlive

/-- Behind a bad front nothing can do harm. -/
theorem benign_append_dead {h : Host} {chunks : List (List UInt8)}
    (hdead : (deliverAll pkgFramer .fresh chunks).live = false)
    (later : List (List UInt8)) : Benign h (chunks ++ later) ↔ Benign h chunks := by
  induction later using List.reverseRecOn with
  | nil => rw [List.append_nil]
  | append_singleton later c ih =>
      rw [← List.append_assoc, benign_concat, ih, and_iff_left]
      intro hlive
      rw [deliverAll_append, deliverAll_dead pkgFramer hdead, hdead] at hlive
      cases hlive

/-- More requests were dispatched than the stream has frames, whatever comes. -/
def Overrun (e : Entry) : Prop :=
  ∀ later, (pkgFramer.frames (e.hist.received ++ later)).length < e.hist.requests.length

/-- An entry is that of the abstract receiver, or a wrapped total has made it
overrun for good. -/
def Segmented (h : Host) (e : Entry) (live : Bool) (bytes : List UInt8) : Prop :=
  (Benign h e.hist.chunks ∧ Books e live bytes) ∨
    (¬ Benign h e.hist.chunks ∧ Holds e.conn bytes ∧ Overrun e)

/-- The two properties of open and of closed connections. -/
def SegOpen (h : Host) (_ : Int) (e : Entry) : Prop := ∃ bytes, Segmented h e true bytes

def SegClosed (h : Host) (why : CloseReason) (e : Entry) : Prop :=
  ∃ bytes, Segmented h e (decide (why ≠ .badLength)) bytes

section Step

variable {h : Host} {b : Buffers} {e : Entry} {bytes : List UInt8} {o : RecvOutcome}

/-- What every event does to the chunks and to the number of requests. -/
theorem receive_grows (e : Entry) (o : RecvOutcome) :
    ((e.hist.receive o).chunks = e.hist.chunks ∨
      (e.hist.receive o).chunks = e.hist.chunks ++ [o.bytes]) ∧
    (e.hist.receive o).requests = e.hist.requests := by
  unfold History.receive
  split
  · exact ⟨Or.inr rfl, rfl⟩
  · exact ⟨Or.inl rfl, rfl⟩

/-- Once overrun, always overrun: the stream grows behind the front, and no
request is taken back. -/
theorem Overrun.grow (hover : Overrun e) (hbad : ¬ Benign h e.hist.chunks) (e' : Entry)
    (hchunks : e'.hist.chunks = (e.hist.receive o).chunks)
    (hrequests : e.hist.requests.length ≤ e'.hist.requests.length) :
    ¬ Benign h e'.hist.chunks ∧ Overrun e' := by
  rcases (receive_grows e o).1 with hsame | hmore
  · rw [hsame] at hchunks
    refine ⟨by rwa [hchunks], ?_⟩
    intro later
    have hlt := hover later
    rw [History.received, hchunks, ← History.received]
    omega
  · rw [hmore] at hchunks
    refine ⟨?_, ?_⟩
    · rw [hchunks, benign_concat]
      exact fun hall => hbad hall.1
    · intro later
      have hlt := hover (o.bytes ++ later)
      rw [History.received, hchunks, List.flatten_append, List.flatten_singleton,
        List.append_assoc, ← History.received]
      omega

/-- **The event that wraps** dispatches a request that is no frame, and the
total the header really announces is too long for any frame to follow. -/
theorem Books.overrun (hbooks : Books e true bytes) (ho : o.Receives)
    (hwrap : ¬ NoWrap h (bytes ++ o.bytes)) (e' : Entry) {request ack : List UInt8}
    (he' : e'.hist = (e.hist.receive o).dispatch request ack) :
    ¬ Benign h e'.hist.chunks ∧ Overrun e' := by
  have hchunks : e'.hist.chunks = e.hist.chunks ++ [o.bytes] := by
    rw [he', receive_of_receives ho]
    rfl
  have hrequests : e'.hist.requests = e.hist.requests ++ [request] := by
    rw [he', receive_of_receives ho]
    rfl
  have hbad : pkgFront (bytes ++ o.bytes) = .bad := by
    unfold NoWrap at hwrap
    apply pkgFront_eq_bad.mpr
    rw [MAXFRAME_eq]
    rcases h.sizeBits_eq with hbits | hbits <;> rw [hbits] at hwrap <;> omega
  refine ⟨?_, ?_⟩
  · rw [hchunks, benign_concat, hbooks.refines]
    exact fun hall => hwrap (hall.2 rfl)
  · intro later
    have htracks := deliver_run_inv pkgFramer e.hist.chunks
    rw [hbooks.refines] at htracks
    have hcut := htracks.cut_append (o.bytes ++ later)
    have hfront : pkgFramer.front (bytes ++ (o.bytes ++ later)) = .bad := by
      rw [← List.append_assoc]
      exact pkgFramer.bad_append later hbad
    have hreceived : e'.hist.received ++ later =
        e.hist.requests.flatten ++ bytes ++ (o.bytes ++ later) := by
      rw [hbooks.received, History.received, hchunks, List.flatten_append,
        List.flatten_singleton, List.append_assoc, History.received]
    rw [hreceived, hcut, frames_of_bad pkgFramer hfront, hrequests, List.append_nil,
      List.length_append]
    exact Nat.lt_succ_self _

/-- An event on a benign entry whose header does not wrap. -/
theorem Benign.receive (hben : Benign h e.hist.chunks) (hbooks : Books e true bytes)
    (ho : o.Receives) (hsz : NoWrap h (bytes ++ o.bytes)) :
    Benign h (e.hist.receive o).chunks := by
  rw [receive_of_receives ho]
  show Benign h (e.hist.chunks ++ [o.bytes])
  rw [benign_concat, hbooks.refines]
  exact ⟨hben, fun _ => hsz⟩

/-- **One event keeps an entry segmented**: by the outcome of the event, on an
entry that is benign and on one that is already overrun. -/
theorem Segmented.read (hseg : Segmented h e true bytes) (fd : Int) {r : EntryResult}
    (hr : Reads h b e bytes o r) : ResultUpholds (SegOpen h) (SegClosed h) fd r := by
  have hrequests := (receive_grows e o).2
  rcases hseg with ⟨hben, hbooks⟩ | ⟨hbad, hholds, hover⟩
  · cases hr with
    | lost ho =>
        refine ⟨bytes, Or.inl ⟨hben, ?_⟩⟩
        rw [decide_eq_true o.lostReason_ne]
        exact hbooks
    | more c ho hsz hfront hc hfd hseq =>
        obtain ⟨bytes', hbooks', -⟩ :=
          ((Reads.more (b := b) c ho hsz hfront hc hfd hseq).good hsz rfl hbooks).books
        exact ⟨bytes', Or.inl ⟨hben.receive hbooks ho hsz, hbooks'⟩⟩
    | bad c ho hsz hfront hc hfd hseq =>
        obtain ⟨bytes', hbooks', -⟩ :=
          (Reads.bad (b := b) c ho hsz hfront hc hfd hseq).good hsz rfl hbooks
        exact ⟨bytes', Or.inl ⟨hben.receive hbooks ho hsz, hbooks'⟩⟩
    | frame c b' n ho hsz hfront hle hc hfd hseq hb' hmem hreq =>
        obtain ⟨⟨⟨bytes', hbooks', -⟩, -⟩, hsized⟩ :=
          (Reads.frame c b' n ho hsz hfront hle hc hfd hseq hb' hmem hreq).good hsz rfl hbooks
        exact ⟨⟨bytes', Or.inl ⟨hben.receive hbooks ho hsz, hbooks'⟩⟩, hsized⟩
    | wrapped c b' t ho hwrap _ hc hfd hseq hb' hmem =>
        obtain ⟨hbad, hover⟩ := hbooks.overrun ho hwrap
          ⟨c, (e.hist.receive o).dispatch ((bytes ++ o.bytes).take t)
            (b.ackFrame h ((bytes ++ o.bytes).take t))⟩ rfl
        exact ⟨⟨_, Or.inr ⟨hbad, hc, hover⟩⟩, hb'⟩
  · have hsame : ∀ c : SockConn, ¬ Benign h (e.hist.receive o).chunks ∧
        Overrun ⟨c, e.hist.receive o⟩ := by
      intro c
      exact hover.grow hbad ⟨c, e.hist.receive o⟩ rfl (by rw [hrequests])
    have hmore : ∀ (c : SockConn) (request ack : List UInt8),
        Overrun ⟨c, (e.hist.receive o).dispatch request ack⟩ := by
      intro c request ack
      refine (hover.grow hbad ⟨c, (e.hist.receive o).dispatch request ack⟩ rfl ?_).2
      simp only [History.dispatch, hrequests, List.length_append]
      exact Nat.le_add_right _ _
    cases hr with
    | lost ho => exact ⟨bytes, Or.inr ⟨hbad, hholds, hover⟩⟩
    | more c ho hsz hfront hc hfd hseq => exact ⟨_, Or.inr ⟨(hsame c).1, hc, (hsame c).2⟩⟩
    | bad c ho hsz hfront hc hfd hseq => exact ⟨_, Or.inr ⟨(hsame c).1, hc, (hsame c).2⟩⟩
    | frame c b' n ho hsz hfront hle hc hfd hseq hb' hmem hreq =>
        exact ⟨⟨_, Or.inr ⟨(hsame c).1, hc, hmore c _ _⟩⟩, hb'⟩
    | wrapped c b' t ho hwrap _ hc hfd hseq hb' hmem =>
        exact ⟨⟨_, Or.inr ⟨(hsame c).1, hc, hmore c _ _⟩⟩, hb'⟩

end Step

theorem segmented_invariant (h : Host) : EntryInvariant h (SegOpen h) (SegClosed h) where
  init := by
    intro fd seq block hblock
    obtain ⟨bytes, hbooks, -⟩ := (EntryGood.init fd seq hblock).books
    exact ⟨bytes, Or.inl ⟨benign_nil h, hbooks⟩⟩
  send := by
    rintro fd e loop o ⟨bytes, ⟨hben, hbooks⟩ | hover⟩
    · exact ⟨bytes, Or.inl ⟨hben, hbooks.send loop o⟩⟩
    · exact ⟨bytes, Or.inr hover⟩
  read := by
    rintro fd e b o ⟨bytes, hseg⟩ hb hfit
    have hholds : Holds e.conn bytes := by
      rcases hseg with ⟨-, hbooks⟩ | ⟨-, hholds, -⟩
      · exact hbooks.holds
      · exact hholds
    obtain ⟨r, hread, hr⟩ := Entry.handleRead_spec h hb hholds hfit
    exact ⟨r, hread, hseg.read fd hr⟩

/-! ## When a cutting is served to the end -/

/-- **The reactor refines the abstract receiver** on the chunks it was given, or
it is overrun. -/
theorem Handled.refines {h : Host} {w : Reactor} (hw : (reactor h).Reachable w)
    {e : Entry} {chunks : List (List UInt8)} (hh : Handled w e chunks) :
    (Benign h chunks ∧ ∃ live,
      deliverAll pkgFramer .fresh chunks = ⟨e.conn.buffered, e.hist.requests, live⟩ ∧
      e.hist.replies.length = e.hist.requests.length) ∨
    (¬ Benign h chunks ∧
      (pkgFramer.frames chunks.flatten).length < e.hist.requests.length) := by
  have hseg := (segmented_invariant h).reachable hw
  rcases hh with ⟨fd, he, rfl⟩ | ⟨fd, hmem, ⟨later, rfl⟩⟩
  · obtain ⟨bytes, ⟨hben, hbooks⟩ | ⟨hbad, -, hover⟩⟩ := hseg.entries fd e he
    · refine Or.inl ⟨hben, true, ?_, hbooks.answered⟩
      rw [hbooks.holds.buffered_eq, hbooks.refines]
    · have hlt := hover []
      rw [List.append_nil] at hlt
      exact Or.inr ⟨hbad, hlt⟩
  · obtain ⟨bytes, ⟨hben, hbooks⟩ | ⟨hbad, -, hover⟩⟩ := hseg.retired _ hmem
    · have hdead : (deliverAll pkgFramer .fresh e.hist.chunks).live = false := by
        rw [hbooks.refines]
        rfl
      refine Or.inl ⟨(benign_append_dead hdead later).mpr hben, false, ?_, hbooks.answered⟩
      rw [deliverAll_append, deliverAll_dead pkgFramer hdead, hbooks.holds.buffered_eq,
        hbooks.refines]
      rfl
    · refine Or.inr ⟨?_, ?_⟩
      · intro hall
        refine hbad ?_
        intro pre chunk hpre
        exact hall pre chunk (hpre.trans (List.prefix_append _ _))
      · have hlt := hover later.flatten
        rwa [History.received, ← List.flatten_append] at hlt

/-- **When a cutting is served to the end**: it is paced, and no header wraps. -/
theorem Handled.fullyServed_iff {h : Host} {w : Reactor} (hw : (reactor h).Reachable w)
    {e : Entry} {chunks : List (List UInt8)} (hh : Handled w e chunks) :
    FullyServed e chunks.flatten ↔ Paced pkgFramer chunks ∧ Benign h chunks := by
  rcases hh.refines hw with ⟨hben, live, hrun, hanswered⟩ | ⟨hbad, hover⟩
  · have hserved : (deliverAll pkgFramer .fresh chunks).served = e.hist.requests := by
      rw [hrun]
    have hdrained := drained_iff_paced pkgFramer chunks
    rw [hserved] at hdrained
    rw [← hdrained, and_iff_left hben]
    constructor
    · intro hfull
      exact hfull.dispatched
    · intro hall
      refine { dispatched := hall, answered := hanswered, none_left := ?_ }
      have hcut := (deliver_run_inv pkgFramer chunks).cut
      rw [hrun, ← hall] at hcut
      exact (frames_eq_nil_iff pkgFramer _).mp (List.append_right_eq_self.mp hcut.symm)
  · constructor
    · intro hfull
      have hlen := congrArg List.length hfull.dispatched
      omega
    · intro hcond
      exact absurd hcond.2 hbad

/-- **When two cuttings are served alike.**  Of any stream and any two cuttings
of it: all complete frames are dispatched and answered in both, with the same
list of requests, exactly when no suffix of either list of chunks completes
more frames than it has chunks, and no header wraps a 32-bit `size_t`. -/
theorem segmentation_iff (h : Host) (cs ds : List (List UInt8))
    (hstream : cs.flatten = ds.flatten) (w₁ w₂ : Reactor) (hw₁ : (reactor h).Reachable w₁)
    (hw₂ : (reactor h).Reachable w₂) (e₁ e₂ : Entry) (hcs : Handled w₁ e₁ cs)
    (hds : Handled w₂ e₂ ds) :
    (e₁.hist.requests = e₂.hist.requests ∧ FullyServed e₁ cs.flatten ∧
      FullyServed e₂ ds.flatten) ↔
    (Paced pkgFramer cs ∧ Benign h cs) ∧ Paced pkgFramer ds ∧ Benign h ds := by
  rw [← hcs.fullyServed_iff hw₁, ← hds.fullyServed_iff hw₂]
  constructor
  · rintro ⟨-, hfull₁, hfull₂⟩
    exact ⟨hfull₁, hfull₂⟩
  · rintro ⟨hfull₁, hfull₂⟩
    refine ⟨?_, hfull₁, hfull₂⟩
    rw [hfull₁.dispatched, hfull₂.dispatched, hstream]

/-! ## Two frames at once -/

theorem two_frames : pkgFramer.frames (List.replicate 48 0) =
    [List.replicate 24 0, List.replicate 24 0] := by
  have hone : pkgFramer.front (List.replicate 24 0) = .frame 24 := pkgFront_zero
  have htwo : pkgFramer.front (List.replicate 48 0) = .frame 24 := by decide
  have hnone : pkgFramer.front ((List.replicate 24 (0 : UInt8)).drop 24) = .more := by decide
  have hrest : (List.replicate 48 (0 : UInt8)).drop 24 = List.replicate 24 0 := by decide
  rw [frames_of_frame pkgFramer htwo, hrest, frames_of_frame pkgFramer hone,
    frames_of_more pkgFramer hnone]
  decide

/-- A client that sends two frames, one chunk each, has both served. -/
theorem two_chunks_served (h : Host) (h64 : h.LP64) :
    ∃ w e, (reactor h).Reachable w ∧
      Handled w e [List.replicate 24 0, List.replicate 24 0] ∧
      e.hist.requests = [List.replicate 24 0, List.replicate 24 0] := by
  obtain ⟨ack, hack⟩ : ∃ ack, ack = Reactor.boot.buffers.ackFrame h
      ((List.replicate 24 0).take 24) := ⟨_, rfl⟩
  obtain ⟨w₁, e₁, hreach₁, he₁, hhist₁, hbooks₁, hidle₁⟩ :=
    boot_serves_and_sends h h64 (by decide) pkgFront_zero hack (o := .sent ack.length)
      (Nat.le_refl _) (if_pos rfl)
  obtain ⟨w₂, e₂, hstep₂, -, he₂, hhist₂, -⟩ :=
    (reactor_good h64 hreach₁).read_frame hidle₁ he₁ hbooks₁ (List.replicate 24 0)
      (h64.noWrap _) (by decide) (by decide) (n := 24) (by decide) rfl
  refine ⟨w₂, e₂, hreach₁.step hstep₂, Or.inl ⟨5, he₂, ?_⟩, ?_⟩
  · rw [hhist₂, hhist₁]
    rfl
  · rw [hhist₂, hhist₁]
    rfl

/-- A client that sends them in one chunk has one served. -/
theorem one_chunk_served (h : Host) (h64 : h.LP64) :
    ∃ w e, (reactor h).Reachable w ∧ Handled w e [List.replicate 48 0] ∧
      e.hist.requests = [List.replicate 24 0] ∧ pkgFront e.conn.buffered = .frame 24 := by
  obtain ⟨w, e, hrun, he, hhist, hbooks, -⟩ :=
    @boot_serves h h64 (List.replicate 48 0) 24 (by decide) (by decide) _ rfl
  refine ⟨w, e, boot_reachable hrun, Or.inl ⟨5, he, ?_⟩, ?_, ?_⟩
  · rw [hhist]
  · rw [hhist]
    rfl
  · rw [hbooks.holds.buffered_eq]
    decide

/-- Two frames in two chunks are paced and served. -/
theorem segmentation_iff_two_chunks :
    ∃ (w : Reactor) (e : Entry), (reactor .x86_64).Reachable w ∧
      FullyServed e (List.replicate 48 0) := by
  obtain ⟨w, e, hreach, hh, hreq⟩ := two_chunks_served .x86_64 Host.x86_64_LP64
  have hiff := segmentation_iff .x86_64 _ _ rfl w w hreach hreach e e hh hh
  have hben := Host.x86_64_LP64.benign [List.replicate 24 0, List.replicate 24 0]
  have hpaced : Paced pkgFramer [List.replicate 24 0, List.replicate 24 0] := by
    rcases hh.refines hreach with ⟨-, live, hrun, -⟩ | ⟨hbad, -⟩
    · rw [← drained_iff_paced, hrun, hreq]
      exact two_frames.symm
    · exact absurd hben hbad
  exact ⟨w, e, hreach, (hiff.mpr ⟨⟨hpaced, hben⟩, hpaced, hben⟩).2.1⟩

/-- **The second of two pipelined frames is left in the buffer**: 48 bytes cut
into one chunk or into two are not served alike. -/
theorem pipelined_frames_left :
    ¬ ∀ (h : Host) (cs ds : List (List UInt8)), (∀ c ∈ cs, c ≠ []) →
      (∀ d ∈ ds, d ≠ []) → cs.flatten = ds.flatten →
      ∀ (w₁ w₂ : Reactor), (reactor h).Reachable w₁ → (reactor h).Reachable w₂ →
      ∀ (e₁ e₂ : Entry), Handled w₁ e₁ cs → Handled w₂ e₂ ds →
        e₁.hist.requests = e₂.hist.requests := by
  intro hall
  obtain ⟨w₁, e₁, hreach₁, hh₁, hreq₁, -⟩ := one_chunk_served .x86_64 Host.x86_64_LP64
  obtain ⟨w₂, e₂, hreach₂, hh₂, hreq₂⟩ := two_chunks_served .x86_64 Host.x86_64_LP64
  have hsame := hall .x86_64 _ _ (by decide) (by decide) (by decide)
    w₁ w₂ hreach₁ hreach₂ e₁ e₂ hh₁ hh₂
  rw [hreq₁, hreq₂] at hsame
  exact absurd (congrArg List.length hsame) (by decide)

end MyGenSvr.Ports
