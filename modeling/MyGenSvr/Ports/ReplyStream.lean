import MyGenSvr.Ports.ReactorRun

/-!
# The reply stream of a connection

`HandleRead` ignores what `SendMsg` returns.  As long as no reply was given up,
the bytes the kernel has accepted and those still to be sent are together the
acknowledgements in order.  After a reply was given up, what the kernel has
accepted is a front of them, and the next reply that is dispatched goes behind
the gap.

## Main results

* `reply_stream_whole` — over every run in which no request of a connection is
  completed after one of its replies was given up.
* `reply_stream_torn` — what happens otherwise.
-/

namespace MyGenSvr.Ports

open MyGenSvr.Verified.Framing
open MyGenSvr.Verified.PartialMap
open MyGenSvr.Verified.Transition

/-- The bytes `SendMsg` still has to send on a connection. -/
def Reactor.pending (w : Reactor) (fd : Int) : List UInt8 :=
  match w.sending with
  | some (fd', loop) => if fd' = fd then loop.p else []
  | none => []

/-- What `recv` brings completes a request at the front of the buffered bytes; a header
whose total wraps is taken for one. -/
def Entry.Completes (h : Host) (e : Entry) (o : RecvOutcome) : Prop :=
  o.Receives ∧ (NoWrap h (e.conn.buffered ++ o.bytes) →
    ∃ n, pkgFront (e.conn.buffered ++ o.bytes) = .frame n)

/-- The step does not complete a request on a connection for which `SendMsg` has
returned -1. -/
def Heeds (h : Host) (w : Reactor) : Event → Prop
  | .read fd o => ∀ e ∈ w.umapFdSockConn fd, e.hist.gaveUp = true → ¬ e.Completes h o
  | _ => True

/-- The runs of a reactor all of whose steps heed a reply given up. -/
def heedful (h : Host) : System Reactor Event := (reactor h).restrict (Heeds h)

/-- `HandleRead` hands a reply to `SendMsg` only where a request is complete. -/
theorem Reads.completes {h : Host} {b b' : Buffers} {e e' : Entry} {bytes ack : List UInt8}
    {o : RecvOutcome} (he : Holds e.conn bytes) (hr : Reads h b e bytes o (.reply e' b' ack)) :
    e.Completes h o := by
  unfold Entry.Completes
  rw [he.buffered_eq]
  cases hr with
  | frame c b' n ho _ hfront => exact ⟨ho, fun _ => ⟨n, hfront⟩⟩
  | wrapped c b' t ho hwrap => exact ⟨ho, fun hsz => absurd hsz hwrap⟩

/-- The reply stream of a connection with `rest` still to be sent. -/
structure StreamGood (t : History) (rest : List UInt8) : Prop where
  whole : t.gaveUp = false → t.wire ++ rest = t.replies.flatten
  stopped : t.gaveUp = true → t.wire <+: t.replies.flatten

theorem StreamGood.wire_prefixed {t : History} {rest : List UInt8} (ht : StreamGood t rest) :
    t.wire <+: t.replies.flatten := by
  cases hgave : t.gaveUp with
  | true => exact ht.stopped hgave
  | false =>
      rw [← ht.whole hgave]
      exact List.prefix_append _ _

/-- The invariant of the heedful runs. -/
structure StreamsGood (w : Reactor) : Prop where
  entries : ∀ fd, ∀ e ∈ w.umapFdSockConn fd, StreamGood e.hist (w.pending fd)
  sender : ∀ fd loop, w.sending = some (fd, loop) →
    ∀ e ∈ w.umapFdSockConn fd, e.hist.gaveUp = false
  retired : ∀ r ∈ w.retired, r.2.2.hist.wire <+: r.2.2.hist.replies.flatten

theorem StreamGood.receive {t : History} {rest : List UInt8} (ht : StreamGood t rest)
    (o : RecvOutcome) : StreamGood (t.receive o) rest := by
  unfold History.receive
  split
  · exact ⟨ht.whole, ht.stopped⟩
  · exact ht

/-- A new reply goes behind the stream. -/
theorem StreamGood.dispatch {t : History} (ht : StreamGood t [])
    (request ack : List UInt8) : StreamGood (t.dispatch request ack) ack := by
  have hflat : (t.dispatch request ack).replies.flatten = t.replies.flatten ++ ack := by
    simp only [History.dispatch, List.flatten_append, List.flatten_singleton]
  refine { whole := ?_, stopped := ?_ }
  · intro hgave
    have hwhole := ht.whole hgave
    rw [List.append_nil] at hwhole
    rw [hflat, ← hwhole]
    rfl
  · intro hgave
    rw [hflat]
    exact (ht.stopped hgave).trans (List.prefix_append _ _)

/-- **One turn of `SendMsg`** for a connection without a reply given up: the three ways
`sendStep` can end. -/
theorem StreamGood.send {t : History} {loop : SendLoop} (ht : StreamGood t loop.p)
    (o : SendOutcome) (hgave : t.gaveUp = false) :
    StreamGood (t.send loop o)
      (match sendStep loop o with
        | .again loop' => loop'.p
        | .done _ => []) := by
  have hwhole := ht.whole hgave
  rcases sendStep_cases loop o with ⟨loop', hstep, hsplit⟩ | ⟨hstep, hall⟩ | ⟨hstep, hnone⟩
  · rw [hstep]
    refine { whole := ?_, stopped := ?_ }
    · intro _
      show t.wire ++ loop.accepted o ++ loop'.p = t.replies.flatten
      rw [List.append_assoc, ← hsplit, hwhole]
    · intro hsend
      simp [History.send, hgave, hstep] at hsend
  · rw [hstep]
    refine { whole := ?_, stopped := ?_ }
    · intro _
      show t.wire ++ loop.accepted o ++ [] = t.replies.flatten
      rw [List.append_nil, hall, hwhole]
    · intro hsend
      simp [History.send, hgave, hstep] at hsend
  · rw [hstep]
    refine { whole := ?_, stopped := ?_ }
    · intro hsend
      simp [History.send, hgave, hstep] at hsend
    · intro _
      show t.wire ++ loop.accepted o <+: t.replies.flatten
      rw [hnone, List.append_nil, ← hwhole]
      exact List.prefix_append _ _

/-- A loop that goes on has not given up. -/
theorem History.send_again {t : History} {loop loop' : SendLoop} {o : SendOutcome}
    (hstep : sendStep loop o = .again loop') : (t.send loop o).gaveUp = t.gaveUp := by
  simp [History.send, hstep]

@[simp] theorem History.receive_gaveUp (t : History) (o : RecvOutcome) :
    (t.receive o).gaveUp = t.gaveUp := by
  unfold History.receive
  split <;> rfl

theorem pending_of_idle {w : Reactor} (hidle : w.sending = none) (fd : Int) :
    w.pending fd = [] := by
  rw [Reactor.pending, hidle]

/-- How `HandleRead` leaves the histories, whatever it finds. -/
theorem Entry.handleRead_hist {h : Host} {b : Buffers} {e : Entry} {o : RecvOutcome}
    {r : EntryResult} (hread : e.handleRead h b o = some r) :
    (∃ e', r = .keep e' ∧ e'.hist = e.hist.receive o) ∨
      (∃ why e', r = .close why e' ∧ e'.hist = e.hist.receive o) ∨
      (∃ e' b' request ack, r = .reply e' b' ack ∧
        e'.hist = (e.hist.receive o).dispatch request ack) := by
  unfold Entry.handleRead at hread
  rw [Option.map_eq_some_iff] at hread
  obtain ⟨result, -, hresult⟩ := hread
  cases result with
  | keep c => exact Or.inl ⟨_, hresult.symm, rfl⟩
  | close why c => exact Or.inr (Or.inl ⟨why, _, hresult.symm, rfl⟩)
  | reply c b' iReqSize iAckSize =>
      exact Or.inr (Or.inr ⟨_, b', _, _, hresult.symm, rfl⟩)

section Step

variable {h : Host} {w : Reactor}

theorem no_sender (hidle : w.sending = none) (fd : Int) (loop : SendLoop)
    (hsending : w.sending = some (fd, loop)) : ∀ e ∈ w.umapFdSockConn fd,
      e.hist.gaveUp = false := by
  rw [hidle] at hsending
  cases hsending

theorem StreamsGood.newConn (hw : StreamsGood w) (hidle : w.sending = none) (fd : Int)
    (peername : Bool) (block : List UInt8) : StreamsGood (w.newConn fd peername block) := by
  have hidle' : (w.newConn fd peername block).sending = none := by
    rw [newConn_sending, hidle]
  refine { entries := ?_, sender := no_sender hidle', retired := ?_ }
  · intro fd' e' hmem
    rw [pending_of_idle hidle']
    have hkept : e' ∈ w.umapFdSockConn fd' → StreamGood e'.hist [] := by
      intro hold
      have hgood := hw.entries fd' e' hold
      rwa [pending_of_idle hidle] at hgood
    unfold Reactor.newConn at hmem
    by_cases hneg : fd ≤ 0
    · rw [if_pos hneg] at hmem
      exact hkept hmem
    · rw [if_neg hneg] at hmem
      cases peername with
      | false => exact hkept hmem
      | true =>
          rcases insertConn_cases _ _ _ hmem with hold | ⟨rfl, rfl, -⟩
          · exact hkept hold
          · exact ⟨fun _ => rfl, fun _ => List.nil_prefix⟩
  · unfold Reactor.newConn
    split
    · exact hw.retired
    · cases peername <;> exact hw.retired

/-- Replacing the entry of `fd` in an idle reactor, with `rest` to be sent. -/
theorem StreamsGood.update (hw : StreamsGood w) (hidle : w.sending = none) {fd : Int}
    {w' : Reactor} {e : Entry} {rest : List UInt8}
    (humap : w'.umapFdSockConn = Function.update w.umapFdSockConn fd (some e))
    (hretired : w'.retired = w.retired) (hrest : StreamGood e.hist rest)
    (hpending : w'.pending fd = rest) (hothers : ∀ fd', fd' ≠ fd → w'.pending fd' = [])
    (hsender : ∀ fd' loop, w'.sending = some (fd', loop) → fd' = fd ∧ e.hist.gaveUp = false) :
    StreamsGood w' := by
  refine { entries := ?_, sender := ?_, retired := by rw [hretired]; exact hw.retired }
  · intro fd' e' hmem
    rw [humap] at hmem
    rcases update_eq_some_iff.mp hmem with ⟨rfl, rfl⟩ | ⟨hfd, hbefore⟩
    · rw [hpending]
      exact hrest
    · have hold := hw.entries fd' e' hbefore
      rwa [pending_of_idle hidle, ← hothers fd' hfd] at hold
  · intro fd' loop hsending e' hmem
    obtain ⟨rfl, hgave⟩ := hsender fd' loop hsending
    rw [humap, Function.update_self, Option.mem_def, Option.some.injEq] at hmem
    exact hmem ▸ hgave

theorem StreamsGood.read (hw : StreamsGood w) (hidle : w.sending = none) {fd : Int}
    {e : Entry} (he : w.umapFdSockConn fd = some e) {o : RecvOutcome} {r : EntryResult}
    (hread : e.handleRead h w.buffers o = some r)
    (hheed : ∀ e' b' ack, r = .reply e' b' ack → e.hist.gaveUp = false) :
    StreamsGood (w.conclude fd r) := by
  have hold := hw.entries fd e he
  rw [pending_of_idle hidle] at hold
  rcases Entry.handleRead_hist hread with
    ⟨e', rfl, hhist⟩ | ⟨why, e', rfl, hhist⟩ | ⟨e', b', request, ack, rfl, hhist⟩
  · refine hw.update hidle rfl rfl (hhist ▸ hold.receive o) (pending_of_idle hidle fd)
      (fun fd' _ => pending_of_idle hidle fd') ?_
    intro fd' loop hsending
    rw [show (w.conclude fd (.keep e')).sending = none from hidle] at hsending
    cases hsending
  · refine { entries := ?_, sender := no_sender hidle, retired := ?_ }
    · intro fd' e'' hmem
      exact hw.entries fd' e'' (erase_eq_some_iff.mp hmem).2
    · intro r hmem
      simp only [Reactor.conclude, List.mem_append, List.mem_singleton] at hmem
      rcases hmem with hbefore | rfl
      · exact hw.retired r hbefore
      · exact (hhist ▸ hold.receive o : StreamGood e'.hist []).wire_prefixed
  · have hgood : StreamGood e'.hist ack := by
      rw [hhist]
      exact (hold.receive o).dispatch request ack
    refine hw.update hidle rfl rfl hgood ?_ ?_ ?_
    · simp only [Reactor.pending, Reactor.conclude, sendStart]
      by_cases hempty : ack.length = 0
      · rw [if_pos hempty, List.length_eq_zero_iff.mp hempty]
        rfl
      · rw [if_neg hempty]
        simp only [Option.map_some, if_true]
    · intro fd' hfd
      simp only [Reactor.pending, Reactor.conclude, sendStart]
      by_cases hempty : ack.length = 0
      · rw [if_pos hempty]
        rfl
      · rw [if_neg hempty]
        simp only [Option.map_some]
        exact if_neg (Ne.symm hfd)
    · intro fd' loop hsending
      simp only [Reactor.conclude, Option.map_eq_some_iff, Prod.mk.injEq] at hsending
      obtain ⟨_, -, rfl, -⟩ := hsending
      refine ⟨rfl, ?_⟩
      rw [hhist]
      show (e.hist.receive o).gaveUp = false
      rw [History.receive_gaveUp, hheed e' b' ack rfl]

theorem StreamsGood.sendTurn (hw : StreamsGood w) {fd : Int} {loop : SendLoop}
    (hsending : w.sending = some (fd, loop)) (o : SendOutcome) :
    StreamsGood (w.sendTurn fd loop o) := by
  refine { entries := ?_, sender := ?_, retired := hw.retired }
  · intro fd' e' hmem
    rcases alter_eq_some_iff.mp hmem with ⟨rfl, e, he, rfl⟩ | ⟨hfd, hbefore⟩
    · have hold := hw.entries fd' e he
      rw [Reactor.pending, hsending] at hold
      simp only [if_true] at hold
      have hnew := hold.send o (hw.sender fd' loop hsending e he)
      have hpending : (w.sendTurn fd' loop o).pending fd' =
          (match sendStep loop o with
            | .again loop' => loop'.p
            | .done _ => []) := by
        simp only [Reactor.pending, Reactor.sendTurn]
        cases sendStep loop o <;> simp
      rw [hpending]
      exact hnew
    · have hold := hw.entries fd' e' hbefore
      have hnone : w.pending fd' = [] := by
        rw [Reactor.pending, hsending]
        exact if_neg (Ne.symm hfd)
      have hafter : (w.sendTurn fd loop o).pending fd' = [] := by
        simp only [Reactor.pending, Reactor.sendTurn]
        cases sendStep loop o with
        | again loop' => exact if_neg (Ne.symm hfd)
        | done ret => rfl
      rw [hafter, ← hnone]
      exact hold
  · intro fd' loop' hafter e' hmem
    simp only [Reactor.sendTurn] at hafter
    cases hstep : sendStep loop o with
    | done ret =>
        rw [hstep] at hafter
        cases hafter
    | again loop'' =>
        rw [hstep, Option.some.injEq, Prod.mk.injEq] at hafter
        obtain ⟨rfl, rfl⟩ := hafter
        rcases alter_eq_some_iff.mp hmem with ⟨-, e, he, rfl⟩ | ⟨hfd, -⟩
        · show (e.hist.send loop o).gaveUp = false
          rw [History.send_again hstep, hw.sender _ _ hsending e he]
        · exact absurd rfl hfd

/-- **The step rule** of the heedful runs. -/
theorem StreamsGood.step (hw : StreamsGood w)
    (hholds : Upholds (fun _ e => ∃ bytes, Holds e.conn bytes) (fun _ _ => True) w)
    {ev : Event} {w' : Reactor} (hst : (heedful h).step w ev w') : StreamsGood w' := by
  obtain ⟨hheeds, henabled, hnext⟩ := hst
  cases ev with
  | newConn fd peername block =>
      rw [Reactor.next, Option.some.injEq] at hnext
      subst hnext
      exact hw.newConn henabled.1 fd peername block
  | read fd o =>
      simp only [Reactor.next] at hnext
      cases he : w.umapFdSockConn fd with
      | none =>
          rw [he, Option.some.injEq] at hnext
          exact hnext ▸ hw
      | some e =>
          rw [he] at hnext
          simp only [Option.map_eq_some_iff] at hnext
          obtain ⟨r, hread, rfl⟩ := hnext
          obtain ⟨bytes, hbytes⟩ := hholds.entries fd e he
          obtain ⟨r', hread', hreads⟩ :=
            Entry.handleRead_spec h hholds.sized hbytes (henabled.2 e he)
          rw [hread, Option.some.injEq] at hread'
          subst hread'
          refine hw.read henabled.1 he hread ?_
          rintro e' b' ack rfl
          -- a reply is handed on only where a request is complete
          by_contra hgave
          exact hheeds e he (by simpa using hgave) (hreads.completes hbytes)
  | send o =>
      obtain ⟨⟨fd, loop⟩, hsending, -⟩ := henabled
      rw [Option.mem_def] at hsending
      simp only [Reactor.next, hsending, Option.some.injEq] at hnext
      subst hnext
      exact hw.sendTurn hsending o

end Step

/-- The heedful runs are runs. -/
theorem heedful_reachable {h : Host} {w : Reactor} (hw : (heedful h).Reachable w) :
    (reactor h).Reachable w := by
  obtain ⟨w₀, es, hinit, hrun⟩ := hw
  exact ⟨w₀, es, hinit, hrun.of_restrict⟩

/-- **The reply stream is never torn** in a run in which no request of a connection is
completed after one of its replies was given up: at every point, also between two calls
of `send`, the bytes the kernel has accepted are a prefix of the acknowledgements in
dispatch order. -/
theorem reply_stream_whole (h : Host) (w : Reactor) (hw : (heedful h).Reachable w) :
    (∀ fd e, w.umapFdSockConn fd = some e → e.hist.wire <+: e.hist.replies.flatten) ∧
    (∀ fd why e, (fd, why, e) ∈ w.retired → e.hist.wire <+: e.hist.replies.flatten) := by
  have hgood : StreamsGood w := by
    refine System.invariant_of_step ?_ ?_ hw
    · intro s (hs : s.Fresh)
      exact { entries := by simp [hs.umap], sender := no_sender hs.sending,
              retired := by simp [hs.retired] }
    · intro s ev t hreach hs hst
      exact hs.step ((holds_invariant h).reachable (heedful_reachable hreach)) hst
  refine ⟨?_, ?_⟩
  · intro fd e he
    exact (hgood.entries fd e he).wire_prefixed
  · intro fd why e hmem
    exact hgood.retired _ hmem

/-- A read on a connection without a reply given up heeds. -/
theorem heeds_read {h : Host} {w : Reactor} {fd : Int} {e : Entry}
    (he : w.umapFdSockConn fd = some e) (hgave : e.hist.gaveUp = false) (o : RecvOutcome) :
    Heeds h w (.read fd o) := by
  intro e' hmem htrue
  rw [Option.mem_def, he, Option.some.injEq] at hmem
  rw [← hmem, hgave] at htrue
  cases htrue

theorem heeds_send (h : Host) (w : Reactor) (o : SendOutcome) : Heeds h w (.send o) := trivial

/-- Bytes that do not complete a request are kept. -/
theorem read_part {h : Host} {w : Reactor} (hw : Good w) (hidle : w.sending = none) {fd : Int}
    {e : Entry} (he : w.umapFdSockConn fd = some e) {bytes : List UInt8}
    (hholds : Holds e.conn bytes) (chunk : List UInt8) (hsz : NoWrap h (bytes ++ chunk))
    (hfit : (RecvOutcome.data chunk).Fits e.conn.requested)
    (hmore : pkgFront (bytes ++ chunk) = .more) :
    ∃ w' c, (reactor h).step w (.read fd (.data chunk)) w' ∧
      w'.umapFdSockConn fd = some ⟨c, e.hist.receive (.data chunk)⟩ := by
  obtain ⟨r, hread, hr⟩ := Entry.handleRead_spec h hw.sized hholds hfit
  have henabled : Enabled w (.read fd (.data chunk)) := by
    refine ⟨hidle, ?_⟩
    intro e' he'
    rw [Option.mem_def, he, Option.some.injEq] at he'
    exact he' ▸ hfit
  have hnext : w.next h (.read fd (.data chunk)) = some (w.conclude fd r) := by
    simp only [Reactor.next, he, hread, Option.map_some]
  have hbytes : (RecvOutcome.data chunk).bytes = chunk := rfl
  cases hr with
  | lost ho => exact absurd trivial ho
  | more c => exact ⟨_, c, ⟨henabled, hnext⟩, Function.update_self _ _ _⟩
  | bad c _ _ hbad =>
      rw [hbytes, hmore] at hbad
      cases hbad
  | frame c b' n _ _ hframe =>
      rw [hbytes, hmore] at hframe
      cases hframe
  | wrapped c b' t _ hwrap => exact absurd hsz hwrap

/-- A client whose first reply is given up after ten bytes. -/
theorem boot_gives_up :
    ∃ (w : Reactor) (e : Entry) (ack : List UInt8), (heedful .x86_64).Reachable w ∧
      w.umapFdSockConn 5 = some e ∧
      e.hist = ⟨[List.replicate 24 0], [List.replicate 24 0], [ack], ack.take 10, true⟩ ∧
      Books e true [] ∧ w.sending = none ∧ 24 ≤ ack.length ∧
      ack.take 20 = List.replicate 20 0 := by
  obtain ⟨w₁, e₁, hstep₁, he₁, hhist₁, hbooks₁, hidle₁, -⟩ :=
    @Good.read_newConn .x86_64 Reactor.boot rfl 5 (by decide) rfl _ emptyBlock_length
  have hreach₁ : (heedful .x86_64).Reachable w₁ :=
    System.Reachable.step (S := heedful .x86_64) (.init Reactor.boot_fresh)
      (e := .newConn 5 true emptyBlock) ⟨trivial, hstep₁⟩
  have hgood₁ := reactor_good Host.x86_64_LP64 (heedful_reachable hreach₁)
  obtain ⟨ack, hack⟩ : ∃ ack, ack = w₁.buffers.ackFrame .x86_64
      (([] ++ List.replicate 24 (0 : UInt8)).take 24) := ⟨_, rfl⟩
  have hlen : 24 ≤ ack.length := by
    rw [hack, Buffers.ackFrame, replyFrame_length]
    exact Nat.le_add_right _ _
  have hstart := @Buffers.ackFrame_take .x86_64 w₁.buffers
    (([] ++ List.replicate 24 (0 : UInt8)).take 24) (by decide)
  rw [← hack] at hstart
  obtain ⟨w₂, e₂, hstep₂, -, he₂, hhist₂, hbooks₂, hsend₂, -⟩ :=
    hgood₁.read_frame hidle₁ he₁ hbooks₁ (List.replicate 24 0) (Host.x86_64_LP64.noWrap _)
      (by decide) (by decide) pkgFront_zero hack
  have hreach₂ : (heedful .x86_64).Reachable w₂ :=
    hreach₁.step ⟨heeds_read he₁ (by rw [hhist₁]; rfl) _, hstep₂⟩
  -- ten bytes, then an error
  obtain ⟨w₃, hstep₃, he₃, hsend₃, -⟩ :=
    @step_send .x86_64 w₂ 5 _ hsend₂ e₂ he₂ (.sent 10) (show 10 ≤ ack.length by omega)
  have hagain : sendStep ⟨ack, 0⟩ (.sent 10) = .again ⟨ack.drop 10, 0⟩ :=
    if_neg (show ¬ 10 = ack.length by omega)
  rw [hagain] at hsend₃
  have hreach₃ : (heedful .x86_64).Reachable w₃ := hreach₂.step ⟨heeds_send _ _ _, hstep₃⟩
  obtain ⟨w₄, hstep₄, he₄, hidle₄, -⟩ :=
    @step_send .x86_64 w₃ 5 _ hsend₃ _ he₃ (.error (.other 105)) trivial
  refine ⟨w₄, _, ack, hreach₃.step ⟨heeds_send _ _ _, hstep₄⟩, he₄, ?_,
    (hbooks₂.send ⟨ack, 0⟩ (.sent 10)).send ⟨ack.drop 10, 0⟩ (.error (.other 105)), hidle₄, hlen,
    hstart⟩
  have hgave : sendStep ⟨ack.drop 10, 0⟩ (.error (.other 105)) = .done (-1) := rfl
  rw [hhist₂, hhist₁]
  simp [History.send, History.dispatch, History.receive, History.empty, RecvOutcome.Receives,
    RecvOutcome.bytes, SendLoop.accepted, hagain, hgave]

/-- Behind a reply given up the client sends the first byte of a second request. -/
theorem reply_stream_whole_given_up :
    ∃ (w : Reactor) (e : Entry), w.umapFdSockConn 5 = some e ∧ e.hist.gaveUp = true ∧
      e.hist.chunks = [List.replicate 24 0, [7]] ∧ e.hist.wire.length = 10 ∧
      e.hist.wire <+: e.hist.replies.flatten := by
  obtain ⟨w₁, e₁, ack, hreach₁, he₁, hhist₁, hbooks₁, hidle₁, hlen, -⟩ := boot_gives_up
  have hgood₁ := reactor_good Host.x86_64_LP64 (heedful_reachable hreach₁)
  have hmore : pkgFront (([] : List UInt8) ++ [7]) = .more := by decide
  have hfit : (RecvOutcome.data [7]).Fits e₁.conn.requested := by
    refine ⟨by decide, ?_⟩
    rw [hbooks₁.holds.requested_eq]
    decide
  obtain ⟨w₂, c, hstep₂, he₂⟩ := read_part hgood₁ hidle₁ he₁ hbooks₁.holds [7]
    (Host.x86_64_LP64.noWrap _) hfit hmore
  have hheed : Heeds .x86_64 w₁ (.read 5 (.data [7])) := by
    intro e hmem _ hcompletes
    rw [Option.mem_def, he₁, Option.some.injEq] at hmem
    obtain ⟨n, hn⟩ := hcompletes.2 (Host.x86_64_LP64.noWrap _)
    rw [← hmem, hbooks₁.holds.buffered_eq] at hn
    change pkgFront (([] : List UInt8) ++ [7]) = _ at hn
    rw [hmore] at hn
    cases hn
  have hreach₂ : (heedful .x86_64).Reachable w₂ := hreach₁.step ⟨hheed, hstep₂⟩
  refine ⟨w₂, _, he₂, ?_, ?_, ?_, (reply_stream_whole .x86_64 w₂ hreach₂).1 5 _ he₂⟩
  · rw [History.receive_gaveUp, hhist₁]
  · rw [hhist₁]
    rfl
  · rw [hhist₁]
    show (ack.take 10).length = 10
    rw [List.length_take]
    omega

/-! ## A torn stream -/

/-- A message cut at `k` and followed by the next one is only a front of the two whole
messages if the next one starts with the byte that was cut off. -/
theorem torn_byte {α : Type} {a b : List α} {k : Nat} (hk : k < a.length) (hb : 0 < b.length)
    (htorn : a.take k ++ b.take 1 <+: a ++ b) : a[k]? = b[0]? := by
  obtain ⟨later, hlater⟩ := htorn
  have hcut : (a.take k).length = k := List.length_take_of_le hk.le
  have hone : (b.take 1).length = 1 := List.length_take_of_le hb
  have hleft : (a.take k ++ b.take 1 ++ later)[k]? = b[0]? := by
    rw [List.append_assoc, List.getElem?_append_right (by omega), hcut, Nat.sub_self,
      List.getElem?_append_left (by omega), List.getElem?_take, if_pos (by decide)]
  rw [← hleft, hlater, List.getElem?_append_left hk]

/-- **A torn stream.**  Ten bytes of a first reply are accepted, then `send`
fails and `SendMsg` gives up; the first byte of the reply to a second request
is accepted all the same. -/
theorem reply_stream_torn :
    ¬ ∀ (h : Host) (w : Reactor), (reactor h).Reachable w →
      ∀ fd e, w.umapFdSockConn fd = some e → e.hist.wire <+: e.hist.replies.flatten := by
  intro hall
  obtain ⟨w₁, e₁, ack₁, hheedful, he₁, hhist₁, hbooks₁, hidle₁, hlen₁, hstart₁⟩ := boot_gives_up
  have hreach₁ := heedful_reachable hheedful
  -- the second request and the first byte of its reply
  obtain ⟨ack₂, hack₂⟩ : ∃ ack, ack = w₁.buffers.ackFrame .x86_64 (([] ++ firstOne).take 24) :=
    ⟨_, rfl⟩
  obtain ⟨w₂, e₂, hstep₂, -, he₂, hhist₂, -, hsend₂, -⟩ :=
    (reactor_good Host.x86_64_LP64 hreach₁).read_frame hidle₁ he₁ hbooks₁ firstOne
      (Host.x86_64_LP64.noWrap _) (by decide) (by decide) (n := 24) (by decide) hack₂
  have hlen₂ : 24 ≤ ack₂.length := by
    rw [hack₂, Buffers.ackFrame, replyFrame_length]
    exact Nat.le_add_right _ _
  obtain ⟨w₃, hstep₃, he₃, -, -⟩ := @step_send .x86_64 w₂ 5 _ hsend₂ e₂ he₂ (.sent 1)
    (show 1 ≤ ack₂.length by omega)
  have hprefix := hall .x86_64 w₃ ((hreach₁.step hstep₂).step hstep₃) 5 _ he₃
  rw [hhist₂, hhist₁] at hprefix
  have htorn : ack₁.take 10 ++ ack₂.take 1 <+: ack₁ ++ ack₂ := by
    simpa [History.send, History.dispatch, History.receive, SendLoop.accepted,
      RecvOutcome.Receives] using hprefix
  -- the eleventh byte
  have hstart₂ := @Buffers.ackFrame_take .x86_64 w₁.buffers (([] ++ firstOne).take 24)
    (by decide)
  rw [← hack₂] at hstart₂
  have hbyte₁ : ack₁[10]? = some 0 := by
    have hget := congrArg (fun m : List UInt8 => m[10]?) hstart₁
    simpa [List.getElem?_take] using hget
  have hbyte₂ : ack₂[0]? = some 1 := by
    have hget := congrArg (fun m : List UInt8 => m[0]?) hstart₂
    simpa [List.getElem?_take, firstOne] using hget
  have hsame := torn_byte (show 10 < ack₁.length by omega) (show 0 < ack₂.length by omega) htorn
  rw [hbyte₁, hbyte₂] at hsame
  exact absurd hsame (by decide)

end MyGenSvr.Ports
