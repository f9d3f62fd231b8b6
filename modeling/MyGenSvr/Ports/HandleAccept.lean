import MyGenSvr.Ports.Pool
import MyGenSvr.Verified.InputLoop

/-!
# Accepting connections

`HandleAccept` runs when the listening socket reports connections, and calls
`accept_tcp_nblk` until that finds none.  Both are loops that go by `errno`, and
both decide on it: the inner one tries again after `EINTR`, the outer one leaves
after `EAGAIN` and, so the comment there, at the limit of open files of the system.
The test is for `EMFILE`, the limit of the process.

`OnNewConn` writes a byte to the notify pipe of its reactor, which no reactor reads
(`Ports.NotifyPipe`).  A write to a pipe with room succeeds; at a full one it blocks
for good, and `HandleAccept` with it.

`accept` may be called without end, so its answers are a sequence without end, of
which a call of `HandleAccept` takes as many as it needs.  Logging leaves `errno` as
it is, `fcntl` succeeds on a fresh descriptor, and a reactor gives its mutex back.

## Main results

* `HandleAccept_eq` — the two loops as the source nests them.
* `HandleAccept_completes_iff` — when `HandleAccept` returns.
-/

namespace MyGenSvr.Ports

open MyGenSvr.Verified
open MyGenSvr.Verified.InputLoop

/-- `errno` after `accept`.  `perConnection` are the errors of the connection at the
head of the queue, such as `ECONNABORTED`. -/
inductive AcceptErrno where
  | EAGAIN
  | EINTR
  | EMFILE
  | ENFILE
  | ENOBUFS
  | ENOMEM
  | perConnection (code : Nat)
  deriving DecidableEq, Repr

/-- What a call of `accept` returns, and `errno` after it. -/
structure AcceptCall where
  newfd : Int
  errno : AcceptErrno
  deriving DecidableEq, Repr

/-- One turn of the loop of `accept_tcp_nblk`: it waits on, or returns with `errno`
as it is then. -/
def accept_tcp_nblkTurn : Unit → AcceptCall → Unit ⊕ (Int × AcceptErrno)
  | (), c =>
      if c.newfd < 0 then
        if c.errno = .EMFILE then .inr (-1, c.errno)
        else if c.errno = .EINTR then .inl ()
        else if c.errno = .EAGAIN then .inr (-1, c.errno)
        else .inr (-1, c.errno)
      else .inr (c.newfd, c.errno)

/-- `accept_tcp_nblk` over the answers of `accept`. -/
def accept_tcp_nblk (calls : List AcceptCall) : Nat × (Unit ⊕ (Int × AcceptErrno)) :=
  run accept_tcp_nblkTurn () calls

/-- How a call of `HandleAccept` ends: it returns, or never comes back from an
`OnNewConn`. -/
inductive AcceptEnd (σ : Type*) where
  | returned (s : σ)
  | blocked (s : σ)
  deriving DecidableEq, Repr

section Loops

variable {σ : Type*}

/-- One turn of the loop of `HandleAccept`, by what `accept_tcp_nblk` returns and what the
call of `OnNewConn` does, if it comes back. -/
def HandleAcceptTurn (onNewConn : σ → Int → Option σ) (s : σ) :
    Int × AcceptErrno → σ ⊕ AcceptEnd σ
  | (connFd, errno) =>
      if connFd ≤ 0 then
        if errno = .EAGAIN ∨ errno = .EMFILE then .inr (.returned s) else .inl s
      else
        match onNewConn s connFd with
        | some s' => .inl s'
        | none => .inr (.blocked s)

/-- The loops of `HandleAccept`, one call of `accept` a turn. -/
def HandleAcceptBody (onNewConn : σ → Int → Option σ) :
    σ × Unit → AcceptCall → (σ × Unit) ⊕ AcceptEnd σ :=
  nested () accept_tcp_nblkTurn (HandleAcceptTurn onNewConn)

end Loops

/-- What `HandleAccept` does to the reactors: the descriptors given to `OnNewConn`, each
with its reactor, and the bytes in the notify pipe of each reactor. -/
structure Handover where
  passed : List (Nat × Int)
  pipe : Nat → Nat

/-- `OnNewConn` of the reactor that `HashGet` selects: a byte for the notify pipe, which
blocks when the pipe is full. -/
def PoolCfg.OnNewConn (cfg : PoolCfg) (s : Handover) (fd : Int) : Option Handover :=
  let i := cfg.HashGet fd
  if ∃ k ∈ cfg.capacity, k ≤ s.pipe i then none
  else some ⟨s.passed ++ [(i, fd)], Function.update s.pipe i (s.pipe i + 1)⟩

/-- `HandleAccept` from a state of the reactors: the calls of `accept` it makes, and how it
ends if it does. -/
def HandleAccept (cfg : PoolCfg) (s : Handover) (calls : List AcceptCall) :
    Nat × ((Handover × Unit) ⊕ AcceptEnd Handover) :=
  run (HandleAcceptBody cfg.OnNewConn) (s, ()) calls

/-- **The two loops.**  Each turn of `HandleAccept` is a call of `accept_tcp_nblk`, the
next turn goes on with the answers this one left. -/
theorem HandleAccept_eq (cfg : PoolCfg) (s : Handover) (calls : List AcceptCall) :
    HandleAccept cfg s calls =
      match accept_tcp_nblk calls with
      | (n, .inl ()) => (n, .inl (s, ()))
      | (n, .inr returned) =>
          match HandleAcceptTurn cfg.OnNewConn s returned with
          | .inl s' =>
              let later := HandleAccept cfg s' (calls.drop n)
              (n + later.1, later.2)
          | .inr ended => (n, .inr ended) := by
  cases h : accept_tcp_nblk calls with
  | mk n result =>
      cases result with
      | inl u => exact run_nested_waits calls h
      | inr returned =>
          rw [HandleAccept, HandleAcceptBody, run_nested_left calls h]
          dsimp only
          cases HandleAcceptTurn cfg.OnNewConn s returned with
          | inl s' => rfl
          | inr ended => rfl

/-! ## What `accept` may answer -/

/-- The call takes a connection. -/
def AcceptCall.Connects (c : AcceptCall) : Prop := 0 < c.newfd

instance AcceptCall.instDecidableConnects (c : AcceptCall) : Decidable c.Connects :=
  inferInstanceAs (Decidable (_ < _))

theorem AcceptCall.not_connects (c : AcceptCall) (hc : c.newfd < 0) : ¬c.Connects := by
  intro hpos
  have hpos : 0 < c.newfd := hpos
  omega

/-- The call fails with one of `errors`. -/
def AcceptCall.FailsWith (c : AcceptCall) (errors : List AcceptErrno) : Prop :=
  c.newfd < 0 ∧ c.errno ∈ errors

instance AcceptCall.instDecidableFailsWith (c : AcceptCall) (errors : List AcceptErrno) :
    Decidable (c.FailsWith errors) :=
  inferInstanceAs (Decidable (_ ∧ _))

/-- The call is interrupted, or fails with its connection. -/
def AcceptCall.Passing (c : AcceptCall) : Prop :=
  c.newfd < 0 ∧ (c.errno = .EINTR ∨ ∃ code, c.errno = .perConnection code)

/-- The answers of `accept` with `backlog` connections pending: each call takes one of
them or fails, with `EAGAIN` only when none is left, and the errors that pass come
finitely often. -/
structure AcceptBehaviour (backlog : Nat) (calls : Stream' AcceptCall) : Prop where
  returns : ∀ n, (calls.get n).Connects ∨ (calls.get n).newfd = -1
  pending : ∀ n, Nat.count (fun k => (calls.get k).Connects) n ≤ backlog
  drained : ∀ n, (calls.get n).FailsWith [.EAGAIN] →
    Nat.count (fun k => (calls.get k).Connects) n = backlog
  passing : {n | (calls.get n).Passing}.Finite

/-- The descriptors accepted, each with the reactor `HashGet` selects. -/
def handedOver (cfg : PoolCfg) (calls : List AcceptCall) : List (Nat × Int) :=
  (calls.filter fun c => decide c.Connects).map fun c => (cfg.HashGet c.newfd, c.newfd)

/-- `HandleAccept` returns after finitely many calls of `accept`, with every descriptor
accepted handed over once, in order. -/
def HandleAcceptCompletes (cfg : PoolCfg) (pipe : Nat → Nat) (calls : Stream' AcceptCall) :
    Prop :=
  ∃ n s, HandleAccept cfg ⟨[], pipe⟩ (calls.take n) = (n, .inr (.returned s)) ∧
    s.passed = handedOver cfg (calls.take n)

/-- From some call on every one fails for a limit that is not the process's, and none
before has failed with an error `HandleAccept` leaves on. -/
def HeldByLimit (calls : Stream' AcceptCall) : Prop :=
  ∃ N, (∀ n < N, ¬(calls.get n).FailsWith [.EAGAIN, .EMFILE]) ∧
    ∀ n ≥ N, (calls.get n).FailsWith [.ENFILE, .ENOBUFS, .ENOMEM]

/-- The connections among the first `n` calls that go to reactor `i`. -/
def connectsTo (cfg : PoolCfg) (calls : Stream' AcceptCall) (i n : Nat) : Nat :=
  Nat.count (fun m => (calls.get m).Connects ∧ cfg.HashGet (calls.get m).newfd = i) n

/-- Before the first call that fails with an error `HandleAccept` leaves on, no reactor is
given more connections than its notify pipe has room for. -/
def PipesHold (cfg : PoolCfg) (pipe : Nat → Nat) (calls : Stream' AcceptCall) : Prop :=
  ∀ n, (∀ m < n, ¬(calls.get m).FailsWith [.EAGAIN, .EMFILE]) →
    ∀ i, ∀ k ∈ cfg.capacity, connectsTo cfg calls i n ≤ k - pipe i

/-! ## One call of `accept` -/

section Turn

variable {σ : Type*} {onNewConn : σ → Int → Option σ} {s : σ} {cfg : PoolCfg} {c : AcceptCall}

theorem turn_connects (hc : c.Connects) :
    HandleAcceptBody onNewConn (s, ()) c =
      match onNewConn s c.newfd with
      | some s' => .inl (s', ())
      | none => .inr (.blocked s) := by
  have hpos : 0 < c.newfd := hc
  have hinner : accept_tcp_nblkTurn () c = .inr (c.newfd, c.errno) := by
    rw [accept_tcp_nblkTurn, if_neg (by omega)]
  have hnot : ¬c.newfd ≤ 0 := by omega
  simp only [HandleAcceptBody, nested, hinner, HandleAcceptTurn, if_neg hnot]
  cases onNewConn s c.newfd <;> rfl

theorem turn_ends (hc : c.FailsWith [.EAGAIN, .EMFILE]) :
    HandleAcceptBody onNewConn (s, ()) c = .inr (.returned s) := by
  obtain ⟨hneg, herrno⟩ := hc
  have hinner : accept_tcp_nblkTurn () c = .inr (-1, c.errno) := by
    rw [accept_tcp_nblkTurn, if_pos hneg]
    rcases List.mem_pair.mp herrno with h | h
    · rw [h]; rfl
    · rw [h]; rfl
  have houter : HandleAcceptTurn onNewConn s (-1, c.errno) = .inr (.returned s) := by
    rw [HandleAcceptTurn, if_pos (by decide), if_pos (List.mem_pair.mp herrno)]
  simp only [HandleAcceptBody, nested, hinner, houter]

/-- Any other failure is one more turn of one of the two loops. -/
theorem turn_fails (hneg : c.newfd < 0) (hc : ¬c.FailsWith [.EAGAIN, .EMFILE]) :
    HandleAcceptBody onNewConn (s, ()) c = .inl (s, ()) := by
  have herrno : ¬(c.errno = .EAGAIN ∨ c.errno = .EMFILE) :=
    fun h => hc ⟨hneg, List.mem_pair.mpr h⟩
  by_cases hintr : c.errno = .EINTR
  · have hinner : accept_tcp_nblkTurn () c = .inl () := by
      rw [accept_tcp_nblkTurn, if_pos hneg, hintr]
      rfl
    simp only [HandleAcceptBody, nested, hinner]
  · have hinner : accept_tcp_nblkTurn () c = .inr (-1, c.errno) := by
      rw [accept_tcp_nblkTurn, if_pos hneg, if_neg fun h => herrno (Or.inr h), if_neg hintr,
        ite_self]
    have houter : HandleAcceptTurn onNewConn s (-1, c.errno) = .inl s := by
      rw [HandleAcceptTurn, if_pos (by decide), if_neg herrno]
    simp only [HandleAcceptBody, nested, hinner, houter]

theorem handedOver_concat_connects (calls : List AcceptCall) (hc : c.Connects) :
    handedOver cfg (calls ++ [c]) =
      handedOver cfg calls ++ [(cfg.HashGet c.newfd, c.newfd)] := by
  simp [handedOver, List.filter_append, hc]

theorem handedOver_concat_fails (calls : List AcceptCall) (hc : c.newfd < 0) :
    handedOver cfg (calls ++ [c]) = handedOver cfg calls := by
  have hno := c.not_connects hc
  simp [handedOver, List.filter_append, hno]

end Turn

/-! ## Any sequence of answers -/

section Run

variable {backlog : Nat} {calls : Stream' AcceptCall}

theorem AcceptBehaviour.connects_or_fails (h : AcceptBehaviour backlog calls) (n : Nat) :
    (calls.get n).Connects ∨ (calls.get n).newfd < 0 := by
  rcases h.returns n with hconnects | hfails
  · exact Or.inl hconnects
  · exact Or.inr (by omega)

/-- What `HandleAccept` has done after `n` calls, if it gets there. -/
def handover (cfg : PoolCfg) (pipe : Nat → Nat) (calls : Stream' AcceptCall) (n : Nat) :
    Handover :=
  ⟨handedOver cfg (calls.take n), fun i => pipe i + connectsTo cfg calls i n⟩

/-- The call takes a connection whose reactor has a full notify pipe. -/
def Full (cfg : PoolCfg) (pipe : Nat → Nat) (calls : Stream' AcceptCall) (n : Nat) : Prop :=
  (calls.get n).Connects ∧
    ∃ k ∈ cfg.capacity, k ≤ (handover cfg pipe calls n).pipe (cfg.HashGet (calls.get n).newfd)

section Steps

variable {cfg : PoolCfg} {pipe : Nat → Nat}

theorem handover_fails {n : Nat} (hneg : (calls.get n).newfd < 0) :
    handover cfg pipe calls (n + 1) = handover cfg pipe calls n := by
  have hno := (calls.get n).not_connects hneg
  simp only [handover, Stream'.take_succ', handedOver_concat_fails _ hneg, connectsTo,
    Nat.count_succ, hno, false_and, if_false, Nat.add_zero]

theorem handover_connects {n : Nat} (hc : (calls.get n).Connects)
    (hroom : ¬Full cfg pipe calls n) :
    cfg.OnNewConn (handover cfg pipe calls n) (calls.get n).newfd =
      some (handover cfg pipe calls (n + 1)) := by
  unfold PoolCfg.OnNewConn
  rw [if_neg fun hfull => hroom ⟨hc, hfull⟩]
  simp only [handover, Stream'.take_succ', handedOver_concat_connects _ hc, Option.some.injEq,
    Handover.mk.injEq, true_and]
  funext i
  simp only [connectsTo, Nat.count_succ, hc, true_and]
  by_cases hi : cfg.HashGet (calls.get n).newfd = i
  · rw [if_pos hi, ← hi, Function.update_self, Nat.add_assoc]
  · rw [if_neg hi, Function.update_of_ne (Ne.symm hi), Nat.add_zero]

/-- **The run.**  `HandleAccept` returns exactly if some call fails with `EAGAIN` or
`EMFILE`, and none before it finds the pipe of its reactor full. -/
theorem HandleAcceptCompletes_iff_ends (h : AcceptBehaviour backlog calls) :
    HandleAcceptCompletes cfg pipe calls ↔
      ∃ n, (calls.get n).FailsWith [.EAGAIN, .EMFILE] ∧
        ∀ m < n, ¬(calls.get m).FailsWith [.EAGAIN, .EMFILE] ∧ ¬Full cfg pipe calls m := by
  classical
  have hleft := @run_take_left_iff _ _ _ (HandleAcceptBody cfg.OnNewConn) calls
    (fun n => (calls.get n).FailsWith [.EAGAIN, .EMFILE] ∨ Full cfg pipe calls n)
    (fun n => (handover cfg pipe calls n, ()))
    (fun n => if Full cfg pipe calls n then .blocked (handover cfg pipe calls n)
      else .returned (handover cfg pipe calls n)) ?_ ?_
  · have hstart : (⟨[], pipe⟩ : Handover) = handover cfg pipe calls 0 := rfl
    unfold HandleAcceptCompletes HandleAccept
    rw [hstart]
    constructor
    · rintro ⟨n, s, hrun, -⟩
      obtain ⟨k, -, hleaves, hbefore, hresult⟩ := hleft.mp hrun
      by_cases hfull : Full cfg pipe calls k
      · rw [if_pos hfull] at hresult
        cases hresult
      · exact ⟨k, hleaves.resolve_right hfull, fun m hm => not_or.mp (hbefore m hm)⟩
    · rintro ⟨n, hends, hbefore⟩
      have hfull : ¬Full cfg pipe calls n := fun hfull => (calls.get n).not_connects hends.1 hfull.1
      refine ⟨n + 1, handover cfg pipe calls n, hleft.mpr ⟨n, rfl, Or.inl hends, ?_, ?_⟩, ?_⟩
      · intro m hm
        exact not_or.mpr (hbefore m hm)
      · rw [if_neg hfull]
      · rw [Stream'.take_succ', handedOver_concat_fails _ hends.1]
        rfl
  · intro n hgoes
    obtain ⟨hends, hroom⟩ := not_or.mp hgoes
    rcases h.connects_or_fails n with hconnects | hfails
    · rw [turn_connects hconnects, handover_connects hconnects hroom]
    · rw [turn_fails hfails hends, handover_fails hfails]
  · intro n hleaves
    by_cases hfull : Full cfg pipe calls n
    · have hblocks : cfg.OnNewConn (handover cfg pipe calls n) (calls.get n).newfd = none :=
        if_pos hfull.2
      rw [turn_connects hfull.1, hblocks, if_pos hfull]
    · rw [turn_ends (hleaves.resolve_right hfull), if_neg hfull]

/-- Where the pipes have room for all connections, none is found full. -/
theorem PipesHold.not_full (hroom : PipesHold cfg pipe calls) {n : Nat}
    (hbefore : ∀ m < n, ¬(calls.get m).FailsWith [.EAGAIN, .EMFILE]) :
    ¬Full cfg pipe calls n := by
  rintro ⟨hconnects, k, hk, hfull⟩
  have hn : ∀ m < n + 1, ¬(calls.get m).FailsWith [.EAGAIN, .EMFILE] := by
    intro m hm
    rcases Nat.lt_succ_iff_lt_or_eq.mp hm with hlt | rfl
    · exact hbefore m hlt
    · exact fun hends => (calls.get m).not_connects hends.1 hconnects
  have hnext := hroom (n + 1) hn (cfg.HashGet (calls.get n).newfd) k hk
  have hcount : connectsTo cfg calls (cfg.HashGet (calls.get n).newfd) (n + 1) =
      connectsTo cfg calls (cfg.HashGet (calls.get n).newfd) n + 1 := by
    rw [connectsTo, Nat.count_succ, if_pos ⟨hconnects, rfl⟩]
    rfl
  have hfull : k ≤ pipe (cfg.HashGet (calls.get n).newfd) +
      connectsTo cfg calls (cfg.HashGet (calls.get n).newfd) n := hfull
  omega

/-- Where no pipe is found full, each takes what comes. -/
theorem connectsTo_le {n : Nat} (hroom : ∀ m < n, ¬Full cfg pipe calls m) (i : Nat) {k : Nat}
    (hk : k ∈ cfg.capacity) : connectsTo cfg calls i n ≤ k - pipe i := by
  induction n with
  | zero => exact Nat.zero_le _
  | succ n ih =>
      have hbefore := ih fun m hm => hroom m (by omega)
      rw [connectsTo, Nat.count_succ]
      by_cases hone : (calls.get n).Connects ∧ cfg.HashGet (calls.get n).newfd = i
      · rw [if_pos hone]
        have hnot : ¬k ≤ pipe i + connectsTo cfg calls i n := by
          intro hfull
          exact hroom n (by omega) ⟨hone.1, k, hk, by rw [hone.2]; exact hfull⟩
        have hcount : connectsTo cfg calls i n = Nat.count (fun m => (calls.get m).Connects ∧
            cfg.HashGet (calls.get m).newfd = i) n := rfl
        omega
      · rw [if_neg hone]
        exact hbefore

end Steps

/-- Finitely many calls take a connection. -/
theorem AcceptBehaviour.finite_connects (h : AcceptBehaviour backlog calls) :
    {n | (calls.get n).Connects}.Finite := by
  by_contra hinfinite
  have hcount := Nat.count_nth_of_infinite hinfinite (backlog + 1)
  have hpending := h.pending (Nat.nth (fun n => (calls.get n).Connects) (backlog + 1))
  omega

/-- A call that neither ends the loop, connects nor passes has met a limit. -/
theorem AcceptCall.atLimit {c : AcceptCall} (hneg : c.newfd < 0)
    (hends : ¬c.FailsWith [.EAGAIN, .EMFILE]) (hpassing : ¬c.Passing) :
    c.FailsWith [.ENFILE, .ENOBUFS, .ENOMEM] := by
  refine ⟨hneg, ?_⟩
  obtain ⟨newfd, errno⟩ := c
  cases errno with
  | EAGAIN => exact absurd ⟨hneg, by simp⟩ hends
  | EMFILE => exact absurd ⟨hneg, by simp⟩ hends
  | EINTR => exact absurd ⟨hneg, Or.inl rfl⟩ hpassing
  | perConnection code => exact absurd ⟨hneg, Or.inr ⟨code, rfl⟩⟩ hpassing
  | ENFILE => simp
  | ENOBUFS => simp
  | ENOMEM => simp

/-- Answers that never end the loop are a limit from some call on. -/
theorem AcceptBehaviour.heldByLimit_iff (h : AcceptBehaviour backlog calls) :
    HeldByLimit calls ↔ ¬∃ n, (calls.get n).FailsWith [.EAGAIN, .EMFILE] := by
  constructor
  · rintro ⟨N, hbefore, hafter⟩ ⟨n, hends⟩
    rcases Nat.lt_or_ge n N with hn | hn
    · exact hbefore n hn hends
    · -- one call does not fail with two errors
      have hlimit := (hafter n hn).2
      rcases List.mem_pair.mp hends.2 with herrno | herrno
      · rw [herrno] at hlimit
        exact absurd hlimit (by decide)
      · rw [herrno] at hlimit
        exact absurd hlimit (by decide)
  · intro hnone
    have hends : ∀ n, ¬(calls.get n).FailsWith [.EAGAIN, .EMFILE] :=
      fun n hn => hnone ⟨n, hn⟩
    obtain ⟨last, hlast⟩ := (h.finite_connects.union h.passing).bddAbove
    refine ⟨last + 1, fun n _ => hends n, ?_⟩
    intro n hn
    have hrare : n ∉ {n | (calls.get n).Connects} ∪ {n | (calls.get n).Passing} := by
      intro hmem
      have hle : n ≤ last := hlast hmem
      omega
    rcases h.connects_or_fails n with hconnects | hfails
    · exact absurd (Or.inl hconnects) hrare
    · exact AcceptCall.atLimit hfails (hends n) fun hpassing => hrare (Or.inr hpassing)

/-- **When `HandleAccept` returns.**  For every finite backlog: unless `accept` comes to
fail for ever at a limit other than the process's, or a reactor is given more connections
than its notify pipe has room for. -/
theorem HandleAccept_completes_iff (cfg : PoolCfg) (pipe : Nat → Nat)
    (h : AcceptBehaviour backlog calls) :
    HandleAcceptCompletes cfg pipe calls ↔ ¬HeldByLimit calls ∧ PipesHold cfg pipe calls := by
  classical
  rw [HandleAcceptCompletes_iff_ends h, h.heldByLimit_iff, not_not]
  constructor
  · rintro ⟨n, hends, hbefore⟩
    refine ⟨⟨n, hends⟩, ?_⟩
    intro m hm i k hk
    refine connectsTo_le (fun j hj => (hbefore j ?_).2) i hk
    by_contra hle
    exact hm n (by omega) hends
  · rintro ⟨hsome, hroom⟩
    refine ⟨Nat.find hsome, Nat.find_spec hsome, ?_⟩
    intro m hm
    exact ⟨Nat.find_min hsome hm,
      hroom.not_full fun j hj => Nat.find_min hsome (by omega)⟩

end Run

/-! ## At a limit -/

/-- One pending connection, then `errno` for ever. -/
def oneThen (errno : AcceptErrno) : Stream' AcceptCall :=
  Stream'.cons ⟨7, errno⟩ (Stream'.const ⟨-1, errno⟩)

theorem oneThen_get_succ (errno : AcceptErrno) (n : Nat) :
    (oneThen errno).get (n + 1) = ⟨-1, errno⟩ := rfl

theorem oneThen_behaviour {errno : AcceptErrno} (hintr : errno ≠ .EINTR)
    (hcode : ∀ code, errno ≠ .perConnection code) : AcceptBehaviour 1 (oneThen errno) := by
  have hcount : ∀ n, Nat.count (fun k => ((oneThen errno).get k).Connects) (n + 1) = 1 := by
    intro n
    induction n with
    | zero => rfl
    | succ n ih =>
        have hfails : ¬((oneThen errno).get (n + 1)).Connects :=
          show ¬(0 : Int) < -1 by decide
        rw [Nat.count_succ, ih, if_neg hfails]
  constructor
  · intro n
    cases n with
    | zero => exact Or.inl (show (0 : Int) < 7 by decide)
    | succ n => exact Or.inr rfl
  · intro n
    cases n with
    | zero => exact Nat.zero_le _
    | succ n => exact (hcount n).le
  · intro n hends
    cases n with
    | zero => exact absurd hends.1 (show ¬(7 : Int) < 0 by decide)
    | succ n => exact hcount n
  · refine Set.Finite.subset Set.finite_empty ?_
    intro n hpassing
    cases n with
    | zero => exact absurd hpassing.1 (show ¬(7 : Int) < 0 by decide)
    | succ n =>
        rcases hpassing.2 with h | ⟨code, h⟩
        · exact absurd h hintr
        · exact absurd h (hcode code)

/-- One connection needs room for one byte. -/
theorem oneThen_pipesHold {cfg : PoolCfg} {pipe : Nat → Nat} {calls : Stream' AcceptCall}
    (h : AcceptBehaviour 1 calls) (hroom : ∀ i, ∀ k ∈ cfg.capacity, pipe i < k) :
    PipesHold cfg pipe calls := by
  intro n _ i k hk
  have hle : connectsTo cfg calls i n ≤ Nat.count (fun m => (calls.get m).Connects) n :=
    Nat.count_mono_left fun m _ hm => hm.1
  have hone := h.pending n
  have hlt := hroom i k hk
  omega

/-- With the backlog empty it returns, when the pipe has room for one more byte. -/
theorem HandleAccept_completes_one :
    HandleAcceptCompletes (PoolCfg.single (some 65536)) (fun _ => 65535) (oneThen .EAGAIN) := by
  have hbehaviour : AcceptBehaviour 1 (oneThen .EAGAIN) := oneThen_behaviour (by decide) (by simp)
  refine (HandleAccept_completes_iff _ _ hbehaviour).mpr ⟨?_, ?_⟩
  · rintro ⟨N, _, hafter⟩
    have hlimit := (hafter (N + 1) (by omega)).2
    rw [oneThen_get_succ] at hlimit
    exact absurd hlimit (by simp)
  · refine oneThen_pipesHold hbehaviour ?_
    intro i k hk
    obtain rfl : 65536 = k := Option.some.inj hk
    decide

/-- At the limit of open files of the system it never returns, nor with a full pipe. -/
theorem HandleAccept_never_returns :
    (AcceptBehaviour 1 (oneThen .ENFILE) ∧
      ¬HandleAcceptCompletes (PoolCfg.single none) (fun _ => 0) (oneThen .ENFILE)) ∧
    (AcceptBehaviour 1 (oneThen .EAGAIN) ∧
      ¬HandleAcceptCompletes (PoolCfg.single (some 65536)) (fun _ => 65536) (oneThen .EAGAIN)) := by
  have hlimit : AcceptBehaviour 1 (oneThen .ENFILE) := oneThen_behaviour (by decide) (by simp)
  have hdrained : AcceptBehaviour 1 (oneThen .EAGAIN) := oneThen_behaviour (by decide) (by simp)
  refine ⟨⟨hlimit, ?_⟩, hdrained, ?_⟩
  · rw [HandleAcceptCompletes_iff_ends hlimit]
    rintro ⟨n, hends, -⟩
    cases n with
    | zero => exact absurd hends.1 (by decide)
    | succ n => exact absurd hends.2 (by rw [oneThen_get_succ]; decide)
  · rw [HandleAcceptCompletes_iff_ends hdrained]
    rintro ⟨n, hends, hbefore⟩
    cases n with
    | zero => exact absurd hends.1 (by decide)
    | succ n =>
        exact (hbefore 0 (Nat.succ_pos n)).2 ⟨by decide, 65536, rfl, by decide⟩

end MyGenSvr.Ports
