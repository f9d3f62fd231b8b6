import MyGenSvr.Ports.ReactorRun
import MyGenSvr.Verified.Accounting

/-!
# Connection objects

The `SockConn` objects of a reactor as a ledger: the connection map owns them by
descriptor, and those allocated and not deleted are live.  `HandleNewConn` deletes
what it cannot initialise.  Where `HandleRead` closes a connection it erases the
map entry and does not delete the object, so that the object is live without an owner
from then on; and an `insert` under a key that is taken leaves the new object
without one.

## Main results

* `step_ledger` — what each event does to the ledger.
* `conn_objects_accounted_iff` — the runs in which no object is lost.
-/

namespace MyGenSvr.Ports

open MyGenSvr.Verified.Accounting
open MyGenSvr.Verified.Framing
open MyGenSvr.Verified.PartialMap
open MyGenSvr.Verified.Transition

/-- The objects of a reactor, by sequence number. -/
def Reactor.ledger (w : Reactor) : Ledger Int Int where
  owner fd := (w.umapFdSockConn fd).map fun e => e.conn.iSeq
  live := { seq | seq ∈ w.objects }

/-- The objects allocated and not deleted are the values of the connection map. -/
def Reactor.Accounted (w : Reactor) : Prop :=
  ∀ seq, seq ∈ w.objects ↔ ∃ fd, ∃ e ∈ w.umapFdSockConn fd, e.conn.iSeq = seq

/-- No connection is closed, and no descriptor taken in that has an entry. -/
def Spares (h : Host) (w : Reactor) : Event → Prop
  | .newConn fd peername _ => 0 < fd → peername = true → w.umapFdSockConn fd = none
  | .read fd o => ∀ e ∈ w.umapFdSockConn fd, e.Stays h o
  | .send _ => True

/-- The invariant: the ledger is valid, and the sequence numbers given out are those
up to `connSeq`. -/
structure Registered (w : Reactor) : Prop where
  upholds : Upholds (fun _ e => ∃ bytes, Holds e.conn bytes) (fun _ _ => True) w
  valid : w.ledger.Valid
  numbered : ∀ seq ∈ w.objects, seq ≤ w.connSeq

theorem accounted_iff (w : Reactor) : w.Accounted ↔ w.ledger.Balanced := by
  have howned : ∀ seq, (∃ fd, ∃ e ∈ w.umapFdSockConn fd, e.conn.iSeq = seq) ↔
      ∃ fd, w.ledger.owner fd = some seq := by
    intro seq
    exact exists_congr fun fd => Option.map_eq_some_iff.symm
  exact forall_congr' fun seq => iff_congr Iff.rfl (howned seq)

/-! ## One event -/

section OneEvent

variable {h : Host} {w w' : Reactor}

/-- An entry replaced by one for the same object. -/
theorem owner_update {m : Int → Option Entry} {fd : Int} {e e' : Entry} (he : m fd = some e)
    (hseq : e'.conn.iSeq = e.conn.iSeq) :
    (fun fd' => (Function.update m fd (some e') fd').map fun e => e.conn.iSeq) =
      fun fd' => (m fd').map fun e => e.conn.iSeq := by
  funext fd'
  exact map_update he hseq fd'

/-- The objects after another was allocated. -/
theorem objects_append_eq (w : Reactor) :
    { seq | seq ∈ w.objects ++ [w.connSeq + 1] } =
      insert (w.connSeq + 1) w.ledger.live := by
  ext seq
  rw [Set.mem_insert_iff, Set.mem_ofPred_eq, List.mem_append, List.mem_singleton]
  exact Or.comm

/-- A connection taken in under a free key is entered there. -/
theorem newConn_ledger_free {fd : Int} (hfd : 0 < fd) (hkey : w.umapFdSockConn fd = none)
    (block : List UInt8) :
    (w.newConn fd true block).ledger = w.ledger.enter fd (w.connSeq + 1) := by
  rw [Reactor.newConn, if_neg (Int.not_le.mpr hfd)]
  refine Ledger.ext ?_ (objects_append_eq w)
  funext fd'
  simp only [Reactor.ledger, if_true, insertConn, hkey, Ledger.enter]
  by_cases hfd' : fd' = fd
  · subst hfd'
    simp [SockConn.Init]
  · simp [Function.update_of_ne hfd']

/-- Under a key that is taken it is inserted nowhere. -/
theorem newConn_ledger_taken {fd : Int} (hfd : 0 < fd) {e : Entry}
    (hkey : w.umapFdSockConn fd = some e) (block : List UInt8) :
    (w.newConn fd true block).ledger = w.ledger.stray (w.connSeq + 1) := by
  rw [Reactor.newConn, if_neg (Int.not_le.mpr hfd)]
  refine Ledger.ext ?_ (objects_append_eq w)
  funext fd'
  simp only [Reactor.ledger, if_true, insertConn, hkey, Ledger.stray]
  rfl

/-- **Taking in a connection.** -/
theorem newConn_ledger (hw : Registered w) (fd : Int) (peername : Bool) (block : List UInt8) :
    Step (Spares h w (.newConn fd peername block)) w.ledger
      (w.newConn fd peername block).ledger := by
  by_cases hfd : fd ≤ 0
  · rw [Reactor.newConn, if_pos hfd]
    exact .same fun hpos => absurd hpos (by omega)
  cases peername with
  | false =>
      have hsame : (w.newConn fd false block).ledger = w.ledger := by
        rw [Reactor.newConn, if_neg hfd]
        rfl
      rw [hsame]
      exact .same fun _ hname => absurd hname Bool.false_ne_true
  | true =>
      have hpos : 0 < fd := Int.not_le.mp hfd
      have hnew : w.connSeq + 1 ∉ w.ledger.live := by
        intro hold
        have hle := hw.numbered _ hold
        omega
      cases hkey : w.umapFdSockConn fd with
      | none =>
          have hfree : w.ledger.owner fd = none := by
            rw [Reactor.ledger]
            simp only [hkey, Option.map_none]
          rw [newConn_ledger_free hpos hkey]
          exact .enter fd _ (fun _ _ => hkey) hfree hnew
      | some e =>
          rw [newConn_ledger_taken hpos hkey]
          refine .stray _ (fun hspares => ?_) hnew
          have hnone := hspares hpos rfl
          rw [hkey] at hnone
          cases hnone

/-- **Reading from a connection.** -/
theorem conclude_ledger {fd : Int} {e : Entry} {o : RecvOutcome} {r : EntryResult}
    {bytes : List UInt8} (hkey : w.umapFdSockConn fd = some e) (he : Holds e.conn bytes)
    (hr : Reads h w.buffers e bytes o r) :
    Step (Spares h w (.read fd o)) w.ledger (w.conclude fd r).ledger := by
  have hspares : Spares h w (.read fd o) ↔ e.Stays h o := by
    simp only [Spares, hkey, Option.mem_some_iff, forall_eq']
  rcases hr.stays_iff he with ⟨hstays, e', hseq, hopen⟩ | ⟨hcloses, why, e', rfl⟩
  · have hsame : (w.conclude fd r).ledger = w.ledger := by
      refine Ledger.ext ?_ ?_
      · rcases hopen with rfl | ⟨b', ack, rfl⟩
        · exact owner_update hkey hseq
        · exact owner_update hkey hseq
      · rcases hopen with rfl | ⟨b', ack, rfl⟩ <;> rfl
    rw [hsame]
    exact .same (hspares.mpr hstays)
  · have hafter : (w.conclude fd (.close why e')).ledger = w.ledger.forget fd := by
      refine Ledger.ext ?_ rfl
      funext fd'
      simp only [Reactor.ledger, Reactor.conclude, Ledger.forget]
      by_cases hfd' : fd' = fd
      · subst hfd'
        simp
      · simp [Function.update_of_ne hfd']
    have howner : w.ledger.owner fd = some e.conn.iSeq := by
      simp only [Reactor.ledger, hkey, Option.map_some]
    exact hafter ▸ .forget fd _ (fun hgood => hcloses (hspares.mp hgood)) howner

/-- Sending touches no object. -/
theorem sendTurn_ledger (fd : Int) (loop : SendLoop) (o : SendOutcome) :
    (w.sendTurn fd loop o).ledger = w.ledger := by
  refine Ledger.ext ?_ rfl
  funext fd'
  simp only [Reactor.ledger, Reactor.sendTurn]
  refine map_alter ?_ fd'
  intro e
  rfl

/-- **Every event is a step of the ledger**, a good one if it spares. -/
theorem step_ledger (hw : Registered w) {ev : Event} (hst : (reactor h).step w ev w') :
    Step (Spares h w ev) w.ledger w'.ledger := by
  obtain ⟨henabled, hnext⟩ := hst
  cases ev with
  | newConn fd peername block =>
      simp only [Reactor.next, Option.some.injEq] at hnext
      rw [← hnext]
      exact newConn_ledger hw fd peername block
  | read fd o =>
      simp only [Reactor.next] at hnext
      cases hkey : w.umapFdSockConn fd with
      | none =>
          rw [hkey] at hnext
          cases hnext
          refine .same fun e he => ?_
          rw [hkey] at he
          cases he
      | some e =>
          obtain ⟨bytes, he⟩ := hw.upholds.entries fd e hkey
          obtain ⟨r, hread, hr⟩ := Entry.handleRead_spec h hw.upholds.sized he
            (henabled.2 e hkey)
          simp only [hkey, hread, Option.map_some, Option.some.injEq] at hnext
          rw [← hnext]
          exact conclude_ledger hkey he hr
  | send o =>
      obtain ⟨⟨fd, loop⟩, hsending, -⟩ := henabled
      rw [Option.mem_def] at hsending
      simp only [Reactor.next, hsending, Option.some.injEq] at hnext
      rw [← hnext, sendTurn_ledger]
      exact .same trivial

/-! ## The run -/

theorem conclude_numbers (w : Reactor) (fd : Int) (r : EntryResult) :
    (w.conclude fd r).objects = w.objects ∧ (w.conclude fd r).connSeq = w.connSeq := by
  cases r <;> exact ⟨rfl, rfl⟩

/-- The numbers given out stay below the counter. -/
theorem next_numbered (hnumbered : ∀ seq ∈ w.objects, seq ≤ w.connSeq) {ev : Event}
    (hnext : w.next h ev = some w') : ∀ seq ∈ w'.objects, seq ≤ w'.connSeq := by
  cases ev with
  | newConn fd peername block =>
      simp only [Reactor.next, Option.some.injEq] at hnext
      rw [← hnext, Reactor.newConn]
      split
      · exact hnumbered
      · cases peername with
        | false =>
            intro seq hseq
            have hle := hnumbered seq hseq
            show seq ≤ w.connSeq + 1
            omega
        | true =>
            intro seq hseq
            show seq ≤ w.connSeq + 1
            rcases List.mem_append.mp hseq with hold | hnew
            · have hle := hnumbered seq hold
              omega
            · rw [List.mem_singleton.mp hnew]
  | read fd o =>
      simp only [Reactor.next] at hnext
      cases hkey : w.umapFdSockConn fd with
      | none =>
          rw [hkey] at hnext
          cases hnext
          exact hnumbered
      | some e =>
          rw [hkey] at hnext
          obtain ⟨r, -, rfl⟩ := Option.map_eq_some_iff.mp hnext
          rw [(conclude_numbers w fd r).1, (conclude_numbers w fd r).2]
          exact hnumbered
  | send o =>
      cases hsending : w.sending with
      | none =>
          rw [Reactor.next, hsending] at hnext
          cases hnext
      | some loop =>
          rw [Reactor.next, hsending] at hnext
          cases hnext
          exact hnumbered

theorem Registered.step (hw : Registered w) {ev : Event}
    (hst : (reactor h).step w ev w') : Registered w' := by
  obtain ⟨w'', hnext, hupholds⟩ := hw.upholds.step (holds_invariant h) hst.1
  have hsame : w'' = w' := by
    rw [hst.2, Option.some.injEq] at hnext
    exact hnext.symm
  exact ⟨hsame ▸ hupholds, (step_ledger hw hst).valid hw.valid,
    next_numbered hw.numbered hst.2⟩

theorem Reactor.Fresh.registered (hw : w.Fresh) : Registered w ∧ w.Accounted := by
  have hnone : ∀ seq, seq ∉ w.objects := by
    intro seq hseq
    rw [hw.objects] at hseq
    exact absurd hseq List.not_mem_nil
  have howner : ∀ fd, w.ledger.owner fd = none := by
    intro fd
    simp only [Reactor.ledger, hw.umap, Option.map_none]
  refine ⟨⟨hw.upholds, ⟨?_, ?_⟩, fun seq hseq => absurd hseq (hnone seq)⟩, ?_⟩
  · intro fd seq hseq
    rw [howner] at hseq
    cases hseq
  · intro fd _ seq hseq
    rw [howner] at hseq
    cases hseq
  · rw [accounted_iff]
    intro seq
    refine iff_of_false (hnone seq) ?_
    rintro ⟨fd, hseq⟩
    rw [howner] at hseq
    cases hseq

end OneEvent

/-! ## Main results -/

/-- **The runs in which no object is lost** are those that spare all connections: after
a run the objects allocated and not deleted are the values of the connection map if and
only if each of its events left every connection open and every key alone. -/
theorem conn_objects_accounted_iff (h : Host) (w₀ w : Reactor) (es : List Event)
    (hinit : w₀.Fresh) (hrun : (reactor h).Run w₀ es w) :
    w.Accounted ↔ ((reactor h).restrict (Spares h)).Run w₀ es w := by
  obtain ⟨hregistered, haccounted⟩ := hinit.registered
  refine hrun.latch (I := Registered) (fun _ _ _ hw hst => hw.step hst) ?_ hregistered haccounted
  intro v ev v' hv hst
  rw [accounted_iff, accounted_iff]
  exact (step_ledger hv hst).balanced_iff hv.valid

/-- Two clients are taken in, and nothing has come from the first one yet. -/
def twoClients : Reactor :=
  ((Reactor.boot.newConn 5 true emptyBlock).newConn 6 true emptyBlock).conclude 5
    (.keep ⟨SockConn.Init 5 1 emptyBlock, History.empty.receive (.error .EAGAIN)⟩)

/-- Both their objects are in the map. -/
theorem conn_objects_accounted_iff_two_clients : twoClients.Accounted := by
  obtain ⟨w₁, hw₁⟩ : ∃ w₁, w₁ = Reactor.boot.newConn 5 true emptyBlock := ⟨_, rfl⟩
  obtain ⟨w₂, hw₂⟩ : ∃ w₂, w₂ = w₁.newConn 6 true emptyBlock := ⟨_, rfl⟩
  have hlast : twoClients = w₂.conclude 5
      (.keep ⟨SockConn.Init 5 1 emptyBlock, History.empty.receive (.error .EAGAIN)⟩) := by
    rw [hw₂, hw₁]
    rfl
  have hkey : w₂.umapFdSockConn 5 = some ⟨SockConn.Init 5 1 emptyBlock, .empty⟩ := by
    rw [hw₂, hw₁]
    rfl
  have hfirst : (reactor .x86_64).step .boot (.newConn 5 true emptyBlock) w₁ := by
    rw [hw₁]
    exact ⟨⟨rfl, emptyBlock_length⟩, rfl⟩
  have hsecond : (reactor .x86_64).step w₁ (.newConn 6 true emptyBlock) w₂ := by
    rw [hw₂, hw₁]
    exact ⟨⟨rfl, emptyBlock_length⟩, rfl⟩
  have hthird : (reactor .x86_64).step w₂ (.read 5 (.error .EAGAIN)) twoClients := by
    rw [hlast]
    refine ⟨⟨by rw [hw₂, hw₁]; rfl, fun _ _ => trivial⟩, ?_⟩
    simp only [Reactor.next, hkey]
    rfl
  have hfree : w₁.umapFdSockConn 6 = none := by
    rw [hw₁]
    rfl
  have hstays : Spares .x86_64 w₂ (.read 5 (.error .EAGAIN)) := by
    intro e he
    rw [hkey] at he
    obtain rfl := Option.some.inj he
    exact ⟨by decide, fun _ => by decide⟩
  have hrun := ((System.Run.single hfirst).snoc hsecond).snoc hthird
  have hspared₁ : ((reactor .x86_64).restrict (Spares .x86_64)).step .boot
      (.newConn 5 true emptyBlock) w₁ := ⟨fun _ _ => rfl, hfirst⟩
  have hspared₂ : ((reactor .x86_64).restrict (Spares .x86_64)).step w₁
      (.newConn 6 true emptyBlock) w₂ := ⟨fun _ _ => hfree, hsecond⟩
  have hspared₃ : ((reactor .x86_64).restrict (Spares .x86_64)).step w₂
      (.read 5 (.error .EAGAIN)) twoClients := ⟨hstays, hthird⟩
  exact (conn_objects_accounted_iff .x86_64 .boot _ _ Reactor.boot_fresh hrun).mpr
    (((System.Run.single hspared₁).snoc hspared₂).snoc hspared₃)

/-- **A connection closed by its peer is lost**: its object stays and the map is empty. -/
theorem closed_conn_leaks :
    ¬ ∀ (h : Host) (w₀ w : Reactor) (es : List Event), w₀.Fresh →
      (reactor h).Run w₀ es w → w.Accounted := by
  intro hall
  obtain ⟨w₁, hw₁⟩ : ∃ w₁, w₁ = Reactor.boot.newConn 5 true emptyBlock := ⟨_, rfl⟩
  have hkey : w₁.umapFdSockConn 5 = some ⟨SockConn.Init 5 1 emptyBlock, .empty⟩ := by
    rw [hw₁]
    rfl
  have hfirst : (reactor .x86_64).step .boot (.newConn 5 true emptyBlock) w₁ := by
    rw [hw₁]
    exact ⟨⟨rfl, emptyBlock_length⟩, rfl⟩
  have hsecond : (reactor .x86_64).step w₁ (.read 5 .eof)
      (w₁.conclude 5 (.close .peerClosed ⟨SockConn.Init 5 1 emptyBlock, .empty⟩)) := by
    refine ⟨⟨?_, fun _ _ => trivial⟩, ?_⟩
    · rw [hw₁]
      rfl
    · simp only [Reactor.next, hkey]
      rfl
  have haccounted := hall .x86_64 .boot _ _ Reactor.boot_fresh
    ((System.Run.single hfirst).append (.single hsecond))
  have hlive : (1 : Int) ∈ w₁.objects := by
    rw [hw₁]
    exact List.mem_singleton_self 1
  obtain ⟨fd, e, he, -⟩ := (haccounted 1).mp hlive
  have hempty : ∀ fd, (w₁.conclude 5 (.close .peerClosed
      ⟨SockConn.Init 5 1 emptyBlock, .empty⟩)).umapFdSockConn fd = none := by
    intro fd
    show Function.update w₁.umapFdSockConn 5 none fd = none
    by_cases hfd : fd = 5
    · rw [hfd, Function.update_self]
    · rw [Function.update_of_ne hfd, hw₁]
      exact Function.update_of_ne hfd _ _
  rw [hempty fd] at he
  cases he

end MyGenSvr.Ports
