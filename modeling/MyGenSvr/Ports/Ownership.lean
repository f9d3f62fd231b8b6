import MyGenSvr.Ports.Pool

/-!
# Descriptor ownership across the pool

The life of a client descriptor: it is `free`, then being handed over by the
accepting thread, then in a queue, in the hands of `HandleNewConn`, live in a
map, and free again once it is closed.  `Owned` ties every place where the code
keeps a descriptor to its stage, and each step of the process moves at most one
descriptor to its next stage.

## Main results

* `LoopStep.moves`, `Owned.step` — one step of a reactor thread, of the process.
* `descriptor_ownership` — epoll sets, maps and queues agree in every reachable
  state.
-/

namespace MyGenSvr.Ports

open MyGenSvr.Verified.Transition

/-- The stages in the life of a client descriptor. -/
inductive Place where
  | free
  | accepting
  | queued
  | held
  | live
  deriving DecidableEq, Repr

/-- The descriptor in the hands of `HandleNewConn`. -/
def Pc.hand : Pc → Option Int
  | .popped fd | .rejected fd | .inited fd _ | .registered fd _ => some fd
  | _ => none

/-- The descriptor that is in the epoll set and not in the map yet. -/
def Pc.added : Pc → Option Int
  | .registered fd _ => some fd
  | _ => none

/-- The open descriptor that `HandleRead` is about. -/
def Pc.serving : Pc → Option Int
  | .reading fd | .closing fd _ _ => some fd
  | _ => none

/-- The descriptor that is closed and still in the map. -/
def Pc.erased : Pc → Option Int
  | .erasing fd _ _ => some fd
  | _ => none

/-- What a point of the thread says about where descriptors are. -/
def Pc.marks (pc : Pc) : Option Int × Option Int × Option Int :=
  (pc.hand, pc.added, pc.erased)

/-- The descriptor the accepting thread has not pushed yet. -/
def AcceptorPc.holds : AcceptorPc → Option Int
  | .accepted fd | .locked fd => some fd
  | _ => none

/-- The places of reactor `i`, with its epoll set, against the stages. -/
structure LoopOwned (cfg : PoolCfg) (owner : Int → Place) (i : Nat)
    (l : LiteReactorBase) (epoll : Finset Int) : Prop where
  queue_nodup : l.queConnFd.Nodup
  queued : ∀ fd, fd ∈ l.queConnFd ↔ owner fd = .queued ∧ cfg.HashGet fd = i
  held : ∀ fd, l.pc.hand = some fd ↔ owner fd = .held ∧ cfg.HashGet fd = i
  keys : ∀ fd, (l.core.umapFdSockConn fd).isSome ↔
    (owner fd = .live ∧ cfg.HashGet fd = i) ∨ l.pc.erased = some fd
  epolled : ∀ fd, fd ∈ epoll ↔
    (owner fd = .live ∧ cfg.HashGet fd = i) ∨ l.pc.added = some fd
  events_nodup : l.events.Nodup
  events : ∀ fd ∈ l.events, fd ≠ cfg.connNotifyRecvFd i → fd ≠ cfg.dataNotifyRecvFd i →
    owner fd = .live ∧ cfg.HashGet fd = i
  serving : ∀ fd, l.pc.serving = some fd →
    owner fd = .live ∧ cfg.HashGet fd = i ∧ fd ∉ l.events
  erased : ∀ fd, l.pc.erased = some fd → owner fd ≠ .live ∧ cfg.HashGet fd = i
  no_orphan : ∀ fd, l.pc ≠ .orphan fd

/-- A step of reactor `i` moves only its own descriptors, opens none, and frees
the one it closes. -/
structure Moves (cfg : PoolCfg) (i : Nat) (owner owner' : Int → Place) (sys : Syscall) :
    Prop where
  others : ∀ fd, cfg.HashGet fd ≠ i → owner' fd = owner fd
  opens : ∀ fd, owner' fd ≠ .free → owner fd ≠ .free
  accepting : ∀ fd, owner' fd = .accepting ↔ owner fd = .accepting
  closes : ∀ fd, sys = .close fd → owner fd ≠ .free ∧ owner' fd = .free ∧ cfg.HashGet fd = i
  adds : ∀ fd, sys = .add fd → cfg.HashGet fd = i

theorem Moves.refl (cfg : PoolCfg) (i : Nat) (owner : Int → Place) :
    Moves cfg i owner owner .none where
  others := fun _ _ => rfl
  opens := fun _ hfd => hfd
  accepting := fun _ => Iff.rfl
  closes := fun _ hsys => by cases hsys
  adds := fun _ hsys => by cases hsys

section Loop

variable {cfg : PoolCfg} {h : Host} {owner : Int → Place} {i : Nat}
  {l l' : LiteReactorBase} {epoll : Finset Int}

/-- The stages of other reactors' descriptors do not matter, nor does the
difference between a free descriptor and one that is being accepted. -/
theorem LoopOwned.congr {owner' : Int → Place} (hl : LoopOwned cfg owner i l epoll)
    (hsame : ∀ fd, cfg.HashGet fd = i → ∀ p ∈ [Place.queued, .held, .live],
      (owner' fd = p ↔ owner fd = p)) : LoopOwned cfg owner' i l epoll := by
  have hqueued : ∀ fd, (owner' fd = .queued ∧ cfg.HashGet fd = i ↔
      owner fd = .queued ∧ cfg.HashGet fd = i) :=
    fun fd => and_congr_left fun hfd => hsame fd hfd _ (by simp)
  have hheld : ∀ fd, (owner' fd = .held ∧ cfg.HashGet fd = i ↔
      owner fd = .held ∧ cfg.HashGet fd = i) :=
    fun fd => and_congr_left fun hfd => hsame fd hfd _ (by simp)
  have hlive : ∀ fd, (owner' fd = .live ∧ cfg.HashGet fd = i ↔
      owner fd = .live ∧ cfg.HashGet fd = i) :=
    fun fd => and_congr_left fun hfd => hsame fd hfd _ (by simp)
  refine
    { queue_nodup := hl.queue_nodup
      queued := fun fd => (hl.queued fd).trans (hqueued fd).symm
      held := fun fd => (hl.held fd).trans (hheld fd).symm
      keys := fun fd => (hl.keys fd).trans (or_congr_left (hlive fd).symm)
      epolled := fun fd => (hl.epolled fd).trans (or_congr_left (hlive fd).symm)
      events_nodup := hl.events_nodup
      events := fun fd hmem hconn hdata => (hlive fd).mpr (hl.events fd hmem hconn hdata)
      serving := ?_
      erased := ?_
      no_orphan := hl.no_orphan }
  · intro fd hfd
    obtain ⟨hown, hhash, hmem⟩ := hl.serving fd hfd
    exact ⟨((hlive fd).mpr ⟨hown, hhash⟩).1, hhash, hmem⟩
  · intro fd hfd
    obtain ⟨hown, hhash⟩ := hl.erased fd hfd
    exact ⟨fun hlive' => hown ((hlive fd).mp ⟨hlive', hhash⟩).1, hhash⟩

/-- A step that moves no descriptor. -/
theorem LoopOwned.stay (hl : LoopOwned cfg owner i l epoll)
    (hqueue : l'.queConnFd = l.queConnFd)
    (hkeys : ∀ fd, (l'.core.umapFdSockConn fd).isSome = (l.core.umapFdSockConn fd).isSome)
    (hmarks : l'.pc.marks = l.pc.marks) (hnodup : l'.events.Nodup)
    (hevents : ∀ fd ∈ l'.events, fd ≠ cfg.connNotifyRecvFd i →
      fd ≠ cfg.dataNotifyRecvFd i → owner fd = .live ∧ cfg.HashGet fd = i)
    (hserving : ∀ fd, l'.pc.serving = some fd →
      owner fd = .live ∧ cfg.HashGet fd = i ∧ fd ∉ l'.events)
    (horphan : ∀ fd, l'.pc ≠ .orphan fd) : LoopOwned cfg owner i l' epoll := by
  obtain ⟨hhand, hadded, herased⟩ : l'.pc.hand = l.pc.hand ∧ l'.pc.added = l.pc.added ∧
      l'.pc.erased = l.pc.erased := by
    simpa only [Pc.marks, Prod.mk.injEq] using hmarks
  exact
    { queue_nodup := hqueue ▸ hl.queue_nodup
      queued := fun fd => hqueue ▸ hl.queued fd
      held := fun fd => hhand ▸ hl.held fd
      keys := fun fd => by rw [hkeys, herased]; exact hl.keys fd
      epolled := fun fd => by rw [hadded]; exact hl.epolled fd
      events_nodup := hnodup
      events := hevents
      serving := hserving
      erased := fun fd hfd => hl.erased fd (herased ▸ hfd)
      no_orphan := horphan }

/-- A step that keeps the batch and serves no event. -/
theorem LoopOwned.idle (hl : LoopOwned cfg owner i l epoll)
    (hqueue : l'.queConnFd = l.queConnFd)
    (hkeys : ∀ fd, (l'.core.umapFdSockConn fd).isSome = (l.core.umapFdSockConn fd).isSome)
    (hmarks : l'.pc.marks = l.pc.marks) (hevents : l'.events = l.events)
    (hserving : l'.pc.serving = none) (horphan : ∀ fd, l'.pc ≠ .orphan fd) :
    LoopOwned cfg owner i l' epoll := by
  apply hl.stay hqueue hkeys hmarks
  · rw [hevents]
    exact hl.events_nodup
  · rw [hevents]
    exact hl.events
  · intro fd hfd
    rw [hserving] at hfd
    cases hfd
  · exact horphan

theorem resume_pc (l : LiteReactorBase) (core : Reactor) :
    (l.resume core).pc = .sending ∨ (l.resume core).pc = .dispatch := by
  unfold LiteReactorBase.resume
  dsimp only
  split
  · exact Or.inl rfl
  · exact Or.inr rfl

/-- Going on after a reading event moves no descriptor. -/
theorem LoopOwned.resume (hl : LoopOwned cfg owner i l epoll) {core : Reactor}
    (hkeys : ∀ fd, (core.umapFdSockConn fd).isSome = (l.core.umapFdSockConn fd).isSome)
    (hmarks : l.pc.marks = (none, none, none)) :
    LoopOwned cfg owner i (l.resume core) epoll := by
  have hquiet : (l.resume core).pc.marks = (none, none, none) ∧
      (l.resume core).pc.serving = none ∧ ∀ fd, (l.resume core).pc ≠ .orphan fd := by
    rcases resume_pc l core with hpc | hpc
    · rw [hpc]
      exact ⟨rfl, rfl, fun _ => Pc.noConfusion⟩
    · rw [hpc]
      exact ⟨rfl, rfl, fun _ => Pc.noConfusion⟩
  exact @LoopOwned.idle cfg owner i l (l.resume core) epoll hl rfl hkeys
    (hquiet.1.trans hmarks.symm) rfl hquiet.2.1 hquiet.2.2

/-- What a system call does to the epoll set of the reactor that makes it. -/
def Syscall.onEpoll (epoll : Finset Int) : Syscall → Finset Int
  | .none => epoll
  | .add fd => insert fd epoll
  | .close fd => epoll.erase fd

/-- One descriptor goes from one stage to another. -/
theorem Moves.update {fd : Int} {q p : Place} {sys : Syscall} (hown : owner fd = q)
    (hhash : cfg.HashGet fd = i) (hfree : q ≠ .free) (haccepting : q ≠ .accepting)
    (hp : p ≠ .accepting)
    (hcloses : ∀ fd', sys = .close fd' → fd' = fd ∧ p = .free)
    (hadds : ∀ fd', sys ≠ .add fd') :
    Moves cfg i owner (Function.update owner fd p) sys where
  others := by
    intro fd' hne
    rw [Function.update_of_ne]
    rintro rfl
    exact hne hhash
  opens := by
    intro fd' hfd'
    by_cases heq : fd' = fd
    · rw [heq, hown]
      exact hfree
    · rwa [Function.update_of_ne heq] at hfd'
  accepting := by
    intro fd'
    by_cases heq : fd' = fd
    · subst heq
      rw [Function.update_self, hown]
      exact iff_of_false hp haccepting
    · rw [Function.update_of_ne heq]
  closes := by
    intro fd' hsys
    obtain ⟨rfl, rfl⟩ := hcloses fd' hsys
    exact ⟨hown ▸ hfree, Function.update_self _ _ _, hhash⟩
  adds := fun fd' hsys => absurd hsys (hadds fd')

/-- From the queue into the hands of `HandleNewConn`. -/
theorem LoopOwned.pop (hl : LoopOwned cfg owner i l epoll) {fd : Int} {rest : List Int}
    (hpc : l.pc = .draining) (hqueue : l.queConnFd = fd :: rest) :
    LoopOwned cfg (Function.update owner fd .held) i
      { l with queConnFd := rest, popped := l.popped ++ [fd], pc := .popped fd } epoll := by
  obtain ⟨hnodup, hqueued, hheld, hkeys, hepoll, hev, hevents, hserving, herased, -⟩ := hl
  rw [hqueue, List.nodup_cons] at hnodup
  have hown : owner fd = .queued ∧ cfg.HashGet fd = i :=
    (hqueued fd).mp (hqueue ▸ List.mem_cons_self)
  exact
    { queue_nodup := hnodup.2
      queued := by grind [Function.update_apply]
      held := by grind [Function.update_apply, Pc.hand]
      keys := by grind [Function.update_apply, Pc.erased]
      epolled := by grind [Function.update_apply, Pc.added]
      events_nodup := hev
      events := by grind [Function.update_apply]
      serving := fun _ hfd => by cases hfd
      erased := fun _ hfd => by cases hfd
      no_orphan := fun _ => Pc.noConfusion }

/-- From the hands of `HandleNewConn` into the map. -/
theorem LoopOwned.insert (hl : LoopOwned cfg owner i l epoll) {fd : Int}
    {block : List UInt8} (hpc : l.pc = .registered fd block) (hpos : 0 < fd)
    (settled : List (Int × Settled)) :
    LoopOwned cfg (Function.update owner fd .live) i
      { l with
        core := l.core.newConn fd true block, settled := settled, pc := .draining }
      epoll := by
  obtain ⟨hnodup, hqueued, hheld, hkeys, hepoll, hev, hevents, hserving, herased, -⟩ := hl
  have hown : owner fd = .held ∧ cfg.HashGet fd = i := (hheld fd).mp (by rw [hpc]; rfl)
  have hkeys' := newConn_isSome l.core hpos block
  exact
    { queue_nodup := hnodup
      queued := by grind [Function.update_apply]
      held := by grind [Function.update_apply, Pc.hand]
      keys := by grind [Function.update_apply, Pc.erased]
      epolled := by grind [Function.update_apply, Pc.added]
      events_nodup := hev
      events := by grind [Function.update_apply]
      serving := fun _ hfd => by cases hfd
      erased := fun _ hfd => by cases hfd
      no_orphan := fun _ => Pc.noConfusion }

/-- A descriptor whose peer has no name is closed. -/
theorem LoopOwned.reject (hl : LoopOwned cfg owner i l epoll) {fd : Int}
    (hpc : l.pc = .rejected fd) (settled : List (Int × Settled)) :
    LoopOwned cfg (Function.update owner fd .free) i
      { l with settled := settled, pc := .draining } (epoll.erase fd) := by
  obtain ⟨hnodup, hqueued, hheld, hkeys, hepoll, hev, hevents, hserving, herased, -⟩ := hl
  have hown : owner fd = .held ∧ cfg.HashGet fd = i := (hheld fd).mp (by rw [hpc]; rfl)
  exact
    { queue_nodup := hnodup
      queued := by grind [Function.update_apply]
      held := by grind [Function.update_apply, Pc.hand]
      keys := by grind [Function.update_apply, Pc.erased]
      epolled := by grind [Function.update_apply, Pc.added]
      events_nodup := hev
      events := by grind [Function.update_apply]
      serving := fun _ hfd => by cases hfd
      erased := fun _ hfd => by cases hfd
      no_orphan := fun _ => Pc.noConfusion }

/-- A live descriptor is closed; its key stays until it is erased. -/
theorem LoopOwned.close (hl : LoopOwned cfg owner i l epoll) {fd : Int}
    {why : CloseReason} {e : Entry} (hpc : l.pc = .closing fd why e) :
    LoopOwned cfg (Function.update owner fd .free) i { l with pc := .erasing fd why e }
      (epoll.erase fd) := by
  obtain ⟨hnodup, hqueued, hheld, hkeys, hepoll, hev, hevents, hserving, herased, -⟩ := hl
  have hown := hserving fd (by rw [hpc]; rfl)
  exact
    { queue_nodup := hnodup
      queued := by grind [Function.update_apply]
      held := by grind [Function.update_apply, Pc.hand]
      keys := by grind [Function.update_apply, Pc.erased]
      epolled := by grind [Function.update_apply, Pc.added]
      events_nodup := hev
      events := by grind [Function.update_apply]
      serving := fun _ hfd => by cases hfd
      erased := by grind [Function.update_apply, Pc.erased]
      no_orphan := fun _ => Pc.noConfusion }

/-- The key of a closed descriptor goes, whatever has become of its number. -/
theorem LoopOwned.erase (hl : LoopOwned cfg owner i l epoll) {fd : Int}
    {why : CloseReason} {e : Entry} (hpc : l.pc = .erasing fd why e) :
    LoopOwned cfg owner i
      { l with core := l.core.conclude fd (.close why e), pc := .dispatch } epoll := by
  obtain ⟨hnodup, hqueued, hheld, hkeys, hepoll, hev, hevents, hserving, herased, -⟩ := hl
  have hown := herased fd (by rw [hpc]; rfl)
  have hkeys' := conclude_close_isSome l.core fd why e
  exact
    { queue_nodup := hnodup
      queued := hqueued
      held := by grind [Pc.hand]
      keys := by grind [Pc.erased]
      epolled := by grind [Pc.added]
      events_nodup := hev
      events := hevents
      serving := fun _ hfd => by cases hfd
      erased := fun _ hfd => by cases hfd
      no_orphan := fun _ => Pc.noConfusion }

/-- A new descriptor enters the epoll set. -/
theorem LoopOwned.register (hl : LoopOwned cfg owner i l epoll) {fd : Int}
    {block : List UInt8} (hpc : l.pc = .inited fd block) :
    LoopOwned cfg owner i { l with pc := .registered fd block } (Insert.insert fd epoll) := by
  obtain ⟨hnodup, hqueued, hheld, hkeys, hepoll, hev, hevents, hserving, herased, -⟩ := hl
  exact
    { queue_nodup := hnodup
      queued := hqueued
      held := by grind [Pc.hand]
      keys := by grind [Pc.erased]
      epolled := by grind [Pc.added]
      events_nodup := hev
      events := hevents
      serving := fun _ hfd => by cases hfd
      erased := fun _ hfd => by cases hfd
      no_orphan := fun _ => Pc.noConfusion }

theorem LoopOwned.events_tail (hl : LoopOwned cfg owner i l epoll) {fd : Int}
    {rest : List Int} (hevents : l.events = fd :: rest) :
    (fd ∉ rest ∧ rest.Nodup) ∧
      ∀ fd' ∈ rest, fd' ≠ cfg.connNotifyRecvFd i → fd' ≠ cfg.dataNotifyRecvFd i →
        owner fd' = .live ∧ cfg.HashGet fd' = i := by
  have hnodup := hl.events_nodup
  rw [hevents, List.nodup_cons] at hnodup
  refine ⟨hnodup, ?_⟩
  intro fd' hfd'
  apply hl.events fd'
  rw [hevents]
  exact List.mem_cons_of_mem fd hfd'

/-- Descriptors are registered only with the reactor that serves them. -/
theorem LoopOwned.hash_of_mem (hl : LoopOwned cfg owner i l epoll) {fd : Int}
    (hmem : fd ∈ epoll) : cfg.HashGet fd = i := by
  rcases (hl.epolled fd).mp hmem with hlive | hadded
  · exact hlive.2
  · have hhand : l.pc.hand = some fd := by
      unfold Pc.added at hadded
      split at hadded
      · rename_i hpc
        rw [hpc]
        exact hadded
      · cases hadded
    exact ((hl.held fd).mp hhand).2

theorem LoopOwned.hash_of_key (hl : LoopOwned cfg owner i l epoll) {fd : Int}
    (hkey : (l.core.umapFdSockConn fd).isSome) : cfg.HashGet fd = i := by
  rcases (hl.keys fd).mp hkey with hlive | herased
  · exact hlive.2
  · exact (hl.erased fd herased).2

/-- What is about to be inserted is no key. -/
theorem LoopOwned.absent (hl : LoopOwned cfg owner i l epoll) {fd : Int}
    {block : List UInt8} (hpc : l.pc = .registered fd block) :
    l.core.umapFdSockConn fd = none := by
  have hown := (hl.held fd).mp (by rw [hpc]; rfl)
  rw [← Option.not_isSome_iff_eq_none, hl.keys, hown.1, hpc]
  rintro (⟨hlive, -⟩ | herased)
  · cases hlive
  · cases herased

/-- **One step of a reactor thread** moves at most one descriptor. -/
theorem LoopStep.moves {ev : LoopEvent} {sys : Syscall}
    (hst : LoopStep cfg h i l ev l' sys) (hl : LoopOwned cfg owner i l epoll)
    (hpos : ∀ fd, owner fd ≠ .free → 0 < fd)
    (hwait : ∀ events, ev = .wait events → events.Nodup ∧ ∀ fd ∈ events,
      fd ∈ epoll ∨ fd = cfg.connNotifyRecvFd i ∨ fd = cfg.dataNotifyRecvFd i) :
    ∃ owner', Moves cfg i owner owner' sys ∧
      LoopOwned cfg owner' i l' (sys.onEpoll epoll) := by
  have hnone : ∀ {fd : Int} {P : Prop}, none = some fd → P := fun hfd => by cases hfd
  cases hst with
  | wait events hpc =>
      obtain ⟨hnodup, hmem⟩ := hwait events rfl
      refine ⟨owner, .refl cfg i owner, hl.stay rfl (fun _ => rfl) (by rw [hpc]; rfl) hnodup ?_
        (fun _ => hnone) (fun _ => Pc.noConfusion)⟩
      intro fd hfd hconn hdata
      rcases hmem fd hfd with hepoll | hnotify | hnotify
      · have hlive := (hl.epolled fd).mp hepoll
        rw [hpc] at hlive
        exact hlive.resolve_right hnone
      · exact absurd hnotify hconn
      · exact absurd hnotify hdata
  | handled hpc hevents =>
      exact ⟨owner, .refl cfg i owner, hl.idle rfl (fun _ => rfl) (by rw [hpc]; rfl)
        rfl rfl (fun _ => Pc.noConfusion)⟩
  | notified rest hpc hevents =>
      obtain ⟨hnodup, hmem⟩ := hl.events_tail hevents
      exact ⟨owner, .refl cfg i owner, hl.stay rfl (fun _ => rfl) (by rw [hpc]; rfl)
        hnodup.2 hmem (fun _ => hnone) (fun _ => Pc.noConfusion)⟩
  | ignored fd rest hpc hevents hconn hdata =>
      obtain ⟨hnodup, hmem⟩ := hl.events_tail hevents
      refine ⟨owner, .refl cfg i owner, hl.stay rfl (fun _ => rfl) rfl hnodup.2 hmem ?_ ?_⟩
      · intro fd' hfd'
        rw [hpc] at hfd'
        exact hnone hfd'
      · exact hl.no_orphan
  | readable fd rest hpc hevents hconn hdata =>
      obtain ⟨hnodup, hmem⟩ := hl.events_tail hevents
      have hlive := hl.events fd (hevents ▸ List.mem_cons_self) hconn hdata
      refine ⟨owner, .refl cfg i owner, hl.stay rfl (fun _ => rfl) (by rw [hpc]; rfl)
        hnodup.2 hmem ?_ (fun _ => Pc.noConfusion)⟩
      intro fd' hfd'
      rw [Pc.serving, Option.some.injEq] at hfd'
      exact hfd' ▸ ⟨hlive.1, hlive.2, hnodup.1⟩
  | lock hpc hmutex =>
      exact ⟨owner, .refl cfg i owner, hl.idle rfl (fun _ => rfl) (by rw [hpc]; rfl)
        rfl rfl (fun _ => Pc.noConfusion)⟩
  | drained hpc hqueue =>
      exact ⟨owner, .refl cfg i owner, hl.idle rfl (fun _ => rfl) (by rw [hpc]; rfl)
        rfl rfl (fun _ => Pc.noConfusion)⟩
  | skipped fd rest hpc hqueue hneg =>
      -- a descriptor in the queue is positive
      have hown := (hl.queued fd).mp (hqueue ▸ List.mem_cons_self)
      have hopen : owner fd ≠ .free := by
        rw [hown.1]
        exact Place.noConfusion
      exact absurd (hpos fd hopen) (by omega)
  | popped fd rest hpc hqueue hpos' =>
      have hown := (hl.queued fd).mp (hqueue ▸ List.mem_cons_self)
      exact ⟨_, .update hown.1 hown.2 Place.noConfusion Place.noConfusion Place.noConfusion
        (fun _ hsys => by cases hsys) (fun _ => Syscall.noConfusion), hl.pop hpc hqueue⟩
  | inited fd block hpc =>
      exact ⟨owner, .refl cfg i owner, hl.idle rfl (fun _ => rfl) (by rw [hpc]; rfl)
        rfl rfl (fun _ => Pc.noConfusion)⟩
  | nameless fd block hpc =>
      refine ⟨owner, .refl cfg i owner, hl.idle rfl ?_ (by rw [hpc]; rfl)
        rfl rfl (fun _ => Pc.noConfusion)⟩
      intro fd'
      rw [newConn_nameless]
  | registered fd block hpc =>
      have hown := (hl.held fd).mp (by rw [hpc]; rfl)
      refine ⟨owner, { Moves.refl cfg i owner with closes := ?_, adds := ?_ },
        hl.register hpc⟩
      · intro fd' hsys
        cases hsys
      · intro fd' hsys
        rw [← Syscall.add.inj hsys]
        exact hown.2
  | inserted fd block hpc =>
      have hown := (hl.held fd).mp (by rw [hpc]; rfl)
      have hopen : owner fd ≠ .free := by
        rw [hown.1]
        exact Place.noConfusion
      exact ⟨_, .update hown.1 hown.2 Place.noConfusion Place.noConfusion Place.noConfusion
        (fun _ hsys => by cases hsys) (fun _ => Syscall.noConfusion),
        hl.insert hpc (hpos fd hopen) _⟩
  | unknown fd o hpc hkey =>
      -- what is read is a key
      have hown := hl.serving fd (by rw [hpc]; rfl)
      have hsome := (hl.keys fd).mpr (Or.inl ⟨hown.1, hown.2.1⟩)
      rw [hkey] at hsome
      cases hsome
  | failed fd o e why e' hpc hkey hread =>
      have hown := hl.serving fd (by rw [hpc]; rfl)
      refine ⟨owner, .refl cfg i owner, hl.stay rfl (fun _ => rfl) (by rw [hpc]; rfl)
        hl.events_nodup hl.events ?_ (fun _ => Pc.noConfusion)⟩
      intro fd' hfd'
      rw [Pc.serving, Option.some.injEq] at hfd'
      exact hfd' ▸ hown
  | served fd o e r hpc hkey hread hopen =>
      have hsome : (l.core.umapFdSockConn fd).isSome := by
        rw [hkey]
        rfl
      exact ⟨owner, .refl cfg i owner,
        hl.resume (conclude_open_isSome l.core hopen hsome) (by rw [hpc]; rfl)⟩
  | sent o fd loop hpc hsend =>
      exact ⟨owner, .refl cfg i owner,
        hl.resume (sendTurn_isSome l.core fd loop o) (by rw [hpc]; rfl)⟩
  | rejected fd hpc =>
      have hown := (hl.held fd).mp (by rw [hpc]; rfl)
      refine ⟨_, .update hown.1 hown.2 Place.noConfusion Place.noConfusion Place.noConfusion
        ?_ (fun _ => Syscall.noConfusion), hl.reject hpc _⟩
      intro fd' hsys
      exact ⟨(Syscall.close.inj hsys).symm, rfl⟩
  | orphaned fd hpc => exact absurd hpc (hl.no_orphan fd)
  | closed fd why e hpc =>
      have hown := hl.serving fd (by rw [hpc]; rfl)
      refine ⟨_, .update hown.1 hown.2.1 Place.noConfusion Place.noConfusion
        Place.noConfusion ?_ (fun _ => Syscall.noConfusion), hl.close hpc⟩
      intro fd' hsys
      exact ⟨(Syscall.close.inj hsys).symm, rfl⟩
  | erased fd why e hpc => exact ⟨owner, .refl cfg i owner, hl.erase hpc⟩

/-- From the hands of the accepting thread into the queue. -/
theorem LoopOwned.push (hl : LoopOwned cfg owner i l epoll) {fd : Int}
    (hown : owner fd = .accepting) (hhash : cfg.HashGet fd = i) (pushed : List Int) :
    LoopOwned cfg (Function.update owner fd .queued) i
      { l with queConnFd := l.queConnFd ++ [fd], pushed := pushed } epoll := by
  obtain ⟨hnodup, hqueued, hheld, hkeys, hepoll, hev, hevents, hserving, herased, horphan⟩ := hl
  have hnew : fd ∉ l.queConnFd := by
    intro hmem
    have hq := ((hqueued fd).mp hmem).1
    rw [hown] at hq
    cases hq
  exact
    { queue_nodup := by
        rw [List.nodup_append]
        refine ⟨hnodup, List.nodup_singleton fd, ?_⟩
        intro a ha b hb
        rw [List.mem_singleton.mp hb]
        exact fun heq => hnew (heq ▸ ha)
      queued := by grind [Function.update_apply]
      held := by grind [Function.update_apply]
      keys := by grind [Function.update_apply]
      epolled := by grind [Function.update_apply]
      events_nodup := hev
      events := by grind [Function.update_apply]
      serving := by grind [Function.update_apply]
      erased := by grind [Function.update_apply]
      no_orphan := horphan }

/-- The mutex and the notify pipe say nothing about descriptors. -/
theorem LoopOwned.unrelated (hl : LoopOwned cfg owner i l epoll)
    (hqueue : l'.queConnFd = l.queConnFd) (hcore : l'.core = l.core) (hpc : l'.pc = l.pc)
    (hevents : l'.events = l.events) : LoopOwned cfg owner i l' epoll := by
  apply hl.stay hqueue
  · intro fd
    rw [hcore]
  · rw [hpc]
  · rw [hevents]
    exact hl.events_nodup
  · rw [hevents]
    exact hl.events
  · rw [hpc, hevents]
    exact hl.serving
  · rw [hpc]
    exact hl.no_orphan

end Loop

/-! ## The process -/

/-- Every place of the process against the stages. -/
structure Owned (cfg : PoolCfg) (owner : Int → Place) (s : Pool) : Prop where
  loops : ∀ i, LoopOwned cfg owner i (s.reactors i) (s.kernel.epoll i)
  opened : ∀ fd, owner fd ≠ .free → fd ∈ s.kernel.openFds ∧ 0 < fd
  accepting : ∀ fd, s.acceptor.holds = some fd ↔ owner fd = .accepting
  connNotify : ∀ i, i < cfg.iPoolSize → cfg.connNotifyRecvFd i ∈ s.kernel.openFds ∧
    owner (cfg.connNotifyRecvFd i) = .free
  dataNotify : ∀ i, i < cfg.iPoolSize → cfg.dataNotifyRecvFd i ∈ s.kernel.openFds ∧
    owner (cfg.dataNotifyRecvFd i) = .free

section Process

variable {cfg : PoolCfg} {h : Host} {owner : Int → Place} {s s' : Pool}

theorem Owned.fresh (hs : s.Fresh cfg) : Owned cfg (fun _ => .free) s where
  loops := by
    intro i
    obtain ⟨hcore, hqueue, -, -, -, hevents, hpc, -, -, -⟩ := hs.reactors i
    have hepoll := hs.epoll i
    exact
      { queue_nodup := by rw [hqueue]; exact List.nodup_nil
        queued := by simp [hqueue]
        held := by simp [hpc, Pc.hand]
        keys := by simp [hpc, Pc.erased, hcore.umap]
        epolled := by simp [hpc, Pc.added, hepoll]
        events_nodup := by rw [hevents]; exact List.nodup_nil
        events := by simp [hevents]
        serving := by simp [hpc, Pc.serving]
        erased := by simp [hpc, Pc.erased]
        no_orphan := by simp [hpc] }
  opened := fun _ hfd => absurd rfl hfd
  accepting := by simp [hs.acceptor, AcceptorPc.holds]
  connNotify := fun i hi => ⟨hs.connNotify i hi, rfl⟩
  dataNotify := fun i hi => ⟨hs.dataNotify i hi, rfl⟩

/-- The accepting thread changes the reactor that serves `fd`, and nothing of it
that says where descriptors are. -/
theorem Owned.hand (hs : Owned cfg owner s) {i : Nat} {l' : LiteReactorBase}
    {acceptor : AcceptorPc} (hqueue : l'.queConnFd = (s.reactors i).queConnFd)
    (hcore : l'.core = (s.reactors i).core) (hpc : l'.pc = (s.reactors i).pc)
    (hevents : l'.events = (s.reactors i).events)
    (hholds : acceptor.holds = s.acceptor.holds) :
    Owned cfg owner { s.set i l' with acceptor := acceptor } where
  loops := Pool.set_forall (P := fun j l => LoopOwned cfg owner j l (s.kernel.epoll j))
    ((hs.loops i).unrelated hqueue hcore hpc hevents) (fun j _ => hs.loops j)
  opened := hs.opened
  accepting := fun fd => hholds ▸ hs.accepting fd
  connNotify := hs.connNotify
  dataNotify := hs.dataNotify

/-- `accept` returns a descriptor that has no place. -/
theorem Owned.accept (hs : Owned cfg owner s) (hidle : s.acceptor = .idle) {fd : Int}
    (hpos : 0 < fd) (hnew : fd ∉ s.kernel.openFds) :
    Owned cfg (Function.update owner fd .accepting)
      { s with
        acceptor := .accepted fd
        kernel := { s.kernel with openFds := insert fd s.kernel.openFds } } := by
  have hfree : owner fd = .free := by
    by_contra hopen
    exact hnew (hs.opened fd hopen).1
  have haccepting := hs.accepting
  rw [hidle] at haccepting
  refine
    { loops := ?_
      opened := by grind [Function.update_apply, hs.opened]
      accepting := by grind [Function.update_apply, AcceptorPc.holds]
      connNotify := by grind [Function.update_apply, hs.connNotify]
      dataNotify := by grind [Function.update_apply, hs.dataNotify] }
  intro i
  apply (hs.loops i).congr
  intro fd' _ p hp
  by_cases hfd : fd' = fd
  · subst hfd
    rw [Function.update_self, hfree]
    simp only [List.mem_cons, List.not_mem_nil, or_false] at hp
    rcases hp with rfl | rfl | rfl <;> simp
  · rw [Function.update_of_ne hfd]

/-- `OnNewConn` pushes the descriptor. -/
theorem Owned.push (hs : Owned cfg owner s) {fd : Int} (hlocked : s.acceptor = .locked fd) :
    Owned cfg (Function.update owner fd .queued) (s.pushFor cfg fd) := by
  have haccepting := hs.accepting
  rw [hlocked] at haccepting
  have hown : owner fd = .accepting := (haccepting fd).mp rfl
  refine
    { loops := ?_
      opened := by grind [Function.update_apply, hs.opened, Pool.pushFor, Pool.set]
      accepting := by grind [Function.update_apply, AcceptorPc.holds, Pool.pushFor]
      connNotify := by grind [Function.update_apply, hs.connNotify, Pool.pushFor, Pool.set]
      dataNotify := by grind [Function.update_apply, hs.dataNotify, Pool.pushFor, Pool.set] }
  refine Pool.set_forall (P := fun j l => LoopOwned cfg _ j l (s.kernel.epoll j)) ?_ ?_
  · exact (hs.loops _).push hown rfl _
  · intro j hj
    apply (hs.loops j).congr
    intro fd' hfd' p _
    rw [Function.update_of_ne]
    rintro rfl
    exact hj hfd'.symm

/-- A step of a reactor thread. -/
theorem Owned.loop (hs : Owned cfg owner s) {i : Nat} {ev : LoopEvent}
    {l' : LiteReactorBase} {sys : Syscall}
    (hst : LoopStep cfg h i (s.reactors i) ev l' sys) (hans : Answers cfg s i ev) :
    ∃ owner', Owned cfg owner' { s.set i l' with kernel := s.kernel.serve i sys } := by
  obtain ⟨owner', hmoves, hl'⟩ := hst.moves (hs.loops i) (fun fd hfd => (hs.opened fd hfd).2)
    (by rintro events rfl; exact ⟨hans.1, hans.2.2⟩)
  have hsame : ∀ fd, (∃ j, j < cfg.iPoolSize ∧ (fd = cfg.connNotifyRecvFd j ∨
      fd = cfg.dataNotifyRecvFd j)) ∨ owner' fd ≠ .free → fd ∈ s.kernel.openFds →
      fd ∈ (s.kernel.serve i sys).openFds := by
    intro fd hfd hopen
    cases sys with
    | none => exact hopen
    | add fd' => exact hopen
    | close fd' =>
        obtain ⟨hbefore, hafter, -⟩ := hmoves.closes fd' rfl
        refine Finset.mem_erase.mpr ⟨?_, hopen⟩
        rintro rfl
        rcases hfd with ⟨j, hj, rfl | rfl⟩ | hopen'
        · exact hbefore (hs.connNotify j hj).2
        · exact hbefore (hs.dataNotify j hj).2
        · exact hopen' hafter
  have hfree : ∀ fd, owner fd = .free → owner' fd = .free := by
    intro fd hfd
    by_contra hopen
    exact hmoves.opens fd hopen hfd
  refine ⟨owner',
    { loops := ?_
      opened := ?_
      accepting := fun fd => (hs.accepting fd).trans (hmoves.accepting fd).symm
      connNotify := ?_
      dataNotify := ?_ }⟩
  · refine Pool.set_forall
      (P := fun j l => LoopOwned cfg owner' j l ((s.kernel.serve i sys).epoll j)) ?_ ?_
    · have hepoll : (s.kernel.serve i sys).epoll i = sys.onEpoll (s.kernel.epoll i) := by
        cases sys with
        | none => rfl
        | add fd => exact Function.update_self _ _ _
        | close fd => rfl
      rw [hepoll]
      exact hl'
    · intro j hj
      have hepoll : (s.kernel.serve i sys).epoll j = s.kernel.epoll j := by
        cases sys with
        | none => rfl
        | add fd => exact Function.update_of_ne hj _ _
        | close fd =>
            refine Finset.erase_eq_of_notMem ?_
            intro hmem
            exact hj ((hs.loops j).hash_of_mem hmem ▸ (hmoves.closes fd rfl).2.2)
      rw [hepoll]
      apply (hs.loops j).congr
      intro fd hfd p _
      rw [hmoves.others fd (fun heq => hj (hfd.symm.trans heq))]
  · intro fd hfd
    obtain ⟨hopen, hpos⟩ := hs.opened fd (hmoves.opens fd hfd)
    exact ⟨hsame fd (Or.inr hfd) hopen, hpos⟩
  · intro j hj
    obtain ⟨hopen, hown⟩ := hs.connNotify j hj
    exact ⟨hsame _ (Or.inl ⟨j, hj, Or.inl rfl⟩) hopen, hfree _ hown⟩
  · intro j hj
    obtain ⟨hopen, hown⟩ := hs.dataNotify j hj
    exact ⟨hsame _ (Or.inl ⟨j, hj, Or.inr rfl⟩) hopen, hfree _ hown⟩

/-- **One step of the process** keeps every descriptor in its place. -/
theorem Owned.step (hs : Owned cfg owner s) {ev : PoolEvent}
    (hst : (pool cfg h).step s ev s') : ∃ owner', Owned cfg owner' s' := by
  obtain ⟨henabled, hnext⟩ := hst
  cases Pool.next_cases hnext with
  | declined fd hneg => exact ⟨owner, hs⟩
  | accept fd hidle hpos => exact ⟨_, hs.accept hidle hpos henabled⟩
  | refused fd hpc hneg =>
      have hown := (hs.accepting fd).mp (by rw [hpc]; rfl)
      have hpos := (hs.opened fd (by rw [hown]; exact Place.noConfusion)).2
      exact absurd hpos (by omega)
  | lock fd hpc hpos hmutex => exact ⟨owner, hs.hand rfl rfl rfl rfl (by rw [hpc]; rfl)⟩
  | push fd hpc => exact ⟨_, hs.push hpc⟩
  | write fd succeeds hpc =>
      refine ⟨owner, ?_⟩
      cases succeeds with
      | true => exact hs.hand rfl rfl rfl rfl (by rw [hpc]; rfl)
      | false =>
          exact
            { loops := hs.loops
              opened := hs.opened
              accepting := fun fd => (by rw [← hs.accepting fd, hpc]; rfl)
              connNotify := hs.connNotify
              dataNotify := hs.dataNotify }
  | unlock fd hpc => exact ⟨owner, hs.hand rfl rfl rfl rfl (by rw [hpc]; rfl)⟩
  | loop i ev l' sys hloop => exact hs.loop hloop henabled.2

/-- In every reachable state every descriptor is in its place. -/
theorem pool_owned (hs : (pool cfg h).Reachable s) : ∃ owner, Owned cfg owner s := by
  refine @System.invariant_of_step _ _ (pool cfg h) (fun s => ∃ owner, Owned cfg owner s)
    ?_ ?_ s hs
  · intro s hfresh
    exact ⟨_, Owned.fresh hfresh⟩
  · rintro s ev s' - ⟨owner, hs⟩ hst
    exact hs.step hst

end Process

/-- **Descriptor ownership.**  In every reachable state of the process: a reactor
between two events has registered exactly the keys of its map; no descriptor is
a key of two reactors; a descriptor about to be inserted is no key yet, and gets
a connection of its own with an empty receive buffer; what `HandleRead` is about
is a key, so that its branch for unknown descriptors is never entered; and what
it is about to close waits in no queue. -/
theorem descriptor_ownership (cfg : PoolCfg) (h : Host) (s : Pool)
    (hs : (pool cfg h).Reachable s) :
    (∀ i, ((s.reactors i).pc = .wait ∨ (s.reactors i).pc = .dispatch ∨
        ∃ fd, (s.reactors i).pc = .reading fd) →
      ∀ fd, fd ∈ s.kernel.epoll i ↔ ((s.reactors i).core.umapFdSockConn fd).isSome) ∧
    (∀ i j fd, ((s.reactors i).core.umapFdSockConn fd).isSome →
      ((s.reactors j).core.umapFdSockConn fd).isSome → i = j) ∧
    (∀ i fd block, (s.reactors i).pc = .registered fd block →
      (s.reactors i).core.umapFdSockConn fd = none ∧
      ((s.reactors i).core.newConn fd true block).umapFdSockConn fd =
        some ⟨SockConn.Init fd ((s.reactors i).core.connSeq + 1) block, .empty⟩) ∧
    (∀ i fd, (s.reactors i).pc = .reading fd →
      ((s.reactors i).core.umapFdSockConn fd).isSome) ∧
    (∀ i fd, (s.reactors i).pc ≠ .orphan fd) ∧
    (∀ i j fd why e, (s.reactors i).pc = .closing fd why e →
      fd ∉ (s.reactors j).queConnFd) := by
  obtain ⟨owner, howned⟩ := pool_owned hs
  have hl := howned.loops
  refine ⟨?_, ?_, ?_, ?_, ?_, ?_⟩
  · intro i hpc fd
    have hmarks : (s.reactors i).pc.added = none ∧ (s.reactors i).pc.erased = none := by
      rcases hpc with hpc | hpc | ⟨fd', hpc⟩
      · rw [hpc]
        exact ⟨rfl, rfl⟩
      · rw [hpc]
        exact ⟨rfl, rfl⟩
      · rw [hpc]
        exact ⟨rfl, rfl⟩
    rw [(hl i).epolled, (hl i).keys, hmarks.1, hmarks.2]
  · intro i j fd hi hj
    exact ((hl i).hash_of_key hi).symm.trans ((hl j).hash_of_key hj)
  · intro i fd block hpc
    have hown := ((hl i).held fd).mp (by rw [hpc]; rfl)
    have hkey := (hl i).absent hpc
    have hpos := (howned.opened fd (by rw [hown.1]; exact Place.noConfusion)).2
    exact ⟨hkey, newConn_self _ hpos hkey block⟩
  · intro i fd hpc
    obtain ⟨hlive, hhash, -⟩ := (hl i).serving fd (by rw [hpc]; rfl)
    exact ((hl i).keys fd).mpr (Or.inl ⟨hlive, hhash⟩)
  · exact fun i => (hl i).no_orphan
  · intro i j fd why e hpc hmem
    obtain ⟨hlive, -, -⟩ := (hl i).serving fd (by rw [hpc]; rfl)
    have hqueued := (((hl j).queued fd).mp hmem).1
    rw [hlive] at hqueued
    cases hqueued

/-- Descriptor 5 was closed, and its number belongs to the next connection, which is
about to be inserted: it is no key, and gets an empty receive buffer of its own. -/
theorem descriptor_ownership_reused :
    ∃ s : Pool, (s.reactors 0).popped = [5, 5] ∧ (s.reactors 0).pc = .registered 5 emptyBlock ∧
      (s.reactors 0).core.umapFdSockConn 5 = none ∧
      ((s.reactors 0).core.newConn 5 true emptyBlock).umapFdSockConn 5 =
        some ⟨SockConn.Init 5 2 emptyBlock, .empty⟩ := by
  obtain ⟨s, hs, hpc, hpopped, hseq⟩ := boot_takes_again .x86_64 emptyBlock_length
  obtain ⟨-, -, hinsert, -⟩ := descriptor_ownership (.single none) .x86_64 s hs
  obtain ⟨hkey, hnew⟩ := hinsert 0 5 emptyBlock hpc
  rw [hseq] at hnew
  exact ⟨s, hpopped, hpc, hkey, hnew⟩

end MyGenSvr.Ports
