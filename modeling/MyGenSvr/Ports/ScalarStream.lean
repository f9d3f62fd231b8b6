import MyGenSvr.Ports.RoundTrip
import MyGenSvr.Verified.Transition

/-!
# Streaming scalars through one buffer

Insertions and extractions on one `Serializer`, in any order, where an
extraction is made only while an inserted value is waiting and with the type of
the oldest one.  The buffer is then a first-in-first-out queue: what comes out
is what went in, and an insertion fails only when the buffer has been filled to
its end, which extractions do not undo.

## Main results

* `Streams.put`, `Streams.get` — what the two operations preserve.
* `scalar_streaming` — the laws in every state of every run.
-/

namespace MyGenSvr.Ports

open MyGenSvr.Verified.Buffer
open MyGenSvr.Verified.Transition

/-! ## Runs of insertions and extractions -/

/-- A scalar with its type. -/
abbrev Item := (k : Scalar) × k.Val

/-- A serializer, the values whose insertion ended with error code 0, and the
values its extractions yielded. -/
structure Stream where
  serializer : Serializer
  sent : List Item
  got : List Item

/-- The values inserted and not yet extracted, the oldest first. -/
def Stream.pending (st : Stream) : List Item := st.sent.drop st.got.length

/-- The bytes a list of values takes. -/
def totalWidth (items : List Item) : Nat := (items.map fun item => item.1.width).sum

/-- An operation, with the value of its variable before it. -/
inductive StreamOp where
  | put (k : Scalar) (value : k.Val)
  | get (k : Scalar) (value : k.Val)

/-- `serializer << value`. -/
def Stream.put (h : Host) (st : Stream) (k : Scalar) (value : k.Val) : Stream :=
  let s := st.serializer.putScalar h k value
  { st with
    serializer := s
    sent := if s.iError = 0 then st.sent ++ [⟨k, value⟩] else st.sent }

/-- `serializer >> value`. -/
def Stream.get (h : Host) (st : Stream) (k : Scalar) (value : k.Val) : Stream :=
  let result := st.serializer.getScalar h k value
  { st with serializer := result.1, got := st.got ++ [⟨k, result.2⟩] }

/-- The runs from an empty buffer of at least 8 bytes. -/
def scalarStream (h : Host) : System Stream StreamOp where
  init st := Ordered st.serializer.pBuffer ∧ st.serializer.pBuffer.unread = [] ∧
    8 ≤ st.serializer.pBuffer.size.toNat ∧ st.sent = [] ∧ st.got = []
  step st op st' := match op with
    | .put k value => st' = st.put h k value
    | .get k value => (∃ v, st.pending.head? = some ⟨k, v⟩) ∧ st' = st.get h k value

/-! ## The invariant -/

/-- The unread bytes are the wire forms of the pending values; `base` is where
the write cursor was at the start. -/
structure Streams (h : Host) (base : Nat) (size : UInt32) (st : Stream) : Prop where
  ordered : Ordered st.serializer.pBuffer
  size_eq : st.serializer.pBuffer.size = size
  room : 8 ≤ size.toNat
  written : st.serializer.pBuffer.pWrite = base + totalWidth st.sent
  fifo : st.got <+: st.sent
  unread : st.serializer.pBuffer.unread =
    st.pending.flatMap fun item => item.1.wire h st.serializer.changeByteOrder item.2

theorem totalWidth_append (xs ys : List Item) :
    totalWidth (xs ++ ys) = totalWidth xs + totalWidth ys := by
  simp [totalWidth]

theorem wires_length (h : Host) (c : Bool) (items : List Item) :
    (items.flatMap fun item => item.1.wire h c item.2).length = totalWidth items := by
  simp [totalWidth, List.length_flatMap]

theorem width_le_eight (k : Scalar) : k.width ≤ 8 := by
  cases k <;> decide

section Steps

variable {h : Host} {base : Nat} {size : UInt32} {st : Stream}

theorem Streams.dataSize (hst : Streams h base size st) :
    st.serializer.pBuffer.getDataSize.toNat = totalWidth st.pending := by
  rw [hst.ordered.getDataSize_toNat, hst.unread, wires_length]

/-- An insertion that fits appends its wire form and ends with error code 0. -/
theorem Streams.put_fits (hst : Streams h base size st) (k : Scalar) (value : k.Val)
    (hfit : base + totalWidth st.sent + k.width ≤ size.toNat) :
    (st.serializer.putScalar h k value).iError = 0 ∧
      Streams h base size (st.put h k value) := by
  have hroom : st.serializer.pBuffer.pWrite + k.width ≤
      st.serializer.pBuffer.size.toNat := by
    rw [hst.written, hst.size_eq]
    exact hfit
  obtain ⟨b', hput, happ⟩ := putScalar_appends h k hst.ordered value hroom
  have hcode : (st.serializer.putScalar h k value).iError = 0 := by rw [hput, ok_iError]
  have hsent : (st.put h k value).sent = st.sent ++ [⟨k, value⟩] := if_pos hcode
  have hnext : (st.put h k value).serializer = st.serializer.ok b' := hput
  have hpending : (st.put h k value).pending = st.pending ++ [⟨k, value⟩] := by
    show (st.put h k value).sent.drop st.got.length = _
    rw [hsent, List.drop_append_of_le_length hst.fifo.length_le]
    rfl
  refine ⟨hcode, ?_⟩
  exact
    { ordered := by
        rw [hnext]
        exact happ.ordered
      size_eq := by
        rw [hnext]
        exact happ.size_eq.trans hst.size_eq
      room := hst.room
      written := by
        rw [hnext, ok_pBuffer, happ.write_eq, hst.written, hsent, totalWidth_append,
          wire_length]
        simp [totalWidth, Nat.add_assoc]
      fifo := by
        rw [hsent]
        exact hst.fifo.trans (List.prefix_append _ _)
      unread := by
        rw [hnext, hpending, List.flatMap_append, ok_pBuffer, happ.unread_eq hst.ordered,
          hst.unread]
        simp }

/-- An insertion that does not fit ends with an error code and leaves the buffer
alone. -/
theorem Streams.put_full (hst : Streams h base size st) (k : Scalar) (value : k.Val)
    (hfull : size.toNat < base + totalWidth st.sent + k.width) :
    st.serializer.putScalar h k value = st.serializer.setError (-1) := by
  have hwidth := width_le_eight k
  have hsize := hst.room
  have hreject : ¬ st.serializer.pBuffer.accepts (UInt32.ofNat k.width) = true := by
    rw [hst.ordered.accepts_iff (by rw [width_toNat, hst.size_eq]; omega), width_toNat,
      hst.written, hst.size_eq]
    omega
  rw [Serializer.putScalar, DataBuffer.write, if_neg hreject]

/-- **Insertion** keeps the queue. -/
theorem Streams.put (hst : Streams h base size st) (k : Scalar) (value : k.Val) :
    Streams h base size (st.put h k value) := by
  by_cases hfit : base + totalWidth st.sent + k.width ≤ size.toNat
  · exact (hst.put_fits k value hfit).2
  · have hput := hst.put_full k value (by omega)
    have hcode : (st.serializer.putScalar h k value).iError ≠ 0 := by
      rw [hput, setError_iError]
      decide
    have hsame : st.put h k value =
        { st with serializer := st.serializer.setError (-1) } := by
      rw [Stream.put, if_neg hcode, hput]
    rw [hsame]
    exact
      { ordered := hst.ordered
        size_eq := hst.size_eq
        room := hst.room
        written := hst.written
        fifo := hst.fifo
        unread := hst.unread }

/-- **Extraction** of the oldest value ends with error code 0, yields it and
takes it off the queue. -/
theorem Streams.get (hst : Streams h base size st) {k : Scalar} {v : k.Val}
    (hhead : st.pending.head? = some ⟨k, v⟩) (value : k.Val) :
    ((st.serializer.getScalar h k value).1.iError = 0 ∧
      (st.serializer.getScalar h k value).2 = v) ∧
      Streams h base size (st.get h k value) := by
  obtain ⟨rest, hpending⟩ := List.head?_eq_some_iff.mp hhead
  have hun := hst.unread
  rw [hpending, List.flatMap_cons] at hun
  have hget := getScalar_of_unread h k hst.ordered value v _ hun
  have hlen : k.width ≤ st.serializer.pBuffer.unread.length := by
    rw [hun, List.length_append, wire_length]
    exact Nat.le_add_right _ _
  have hnext : st.get h k value =
      { st with
        serializer := st.serializer.ok
          { st.serializer.pBuffer with pRead := st.serializer.pBuffer.pRead + k.width }
        got := st.got ++ [⟨k, v⟩] } := by
    simp only [Stream.get, hget]
  have hsplit : st.sent = st.got ++ ⟨k, v⟩ :: rest := by
    have htake := List.prefix_iff_eq_take.mp hst.fifo
    have hjoin := List.take_append_drop st.got.length st.sent
    rw [← htake] at hjoin
    rw [← hpending]
    exact hjoin.symm
  refine ⟨by rw [hget]; exact ⟨rfl, rfl⟩, ?_⟩
  rw [hnext]
  exact
    { ordered := hst.ordered.advance hlen
      size_eq := hst.size_eq
      room := hst.room
      written := hst.written
      fifo := by
        show st.got ++ [⟨k, v⟩] <+: st.sent
        rw [hsplit]
        exact ⟨rest, by simp⟩
      unread := by
        have hqueue : st.sent.drop (st.got ++ [(⟨k, v⟩ : Item)]).length = rest := by
          have hcons : st.sent = (st.got ++ [⟨k, v⟩]) ++ rest := by
            rw [hsplit, List.append_assoc]
            rfl
          rw [hcons, List.drop_left]
        show DataBuffer.unread { st.serializer.pBuffer with
          pRead := st.serializer.pBuffer.pRead + k.width } =
            (st.sent.drop (st.got ++ [(⟨k, v⟩ : Item)]).length).flatMap _
        rw [unread_advance, hun, hqueue]
        exact List.drop_left' (wire_length h _ k v) }

end Steps

/-! ## Runs -/

/-- The invariant holds along every run. -/
theorem streams_run (h : Host) {st₀ st : Stream} {ops : List StreamOp}
    (hinit : (scalarStream h).init st₀) (hrun : (scalarStream h).Run st₀ ops st) :
    Streams h st₀.serializer.pBuffer.pWrite st₀.serializer.pBuffer.size st := by
  obtain ⟨hord, hun, hroom, hsent, hgot⟩ := hinit
  refine hrun.preserves ?_ ?_
  · intro s op t hs hstep
    cases op with
    | put k value =>
        rw [show t = s.put h k value from hstep]
        exact hs.put k value
    | get k value =>
        obtain ⟨⟨v, hhead⟩, ht⟩ := hstep
        rw [ht]
        exact (hs.get hhead value).2
  · exact
      { ordered := hord
        size_eq := rfl
        room := hroom
        written := by rw [hsent]; rfl
        fifo := by rw [hsent, hgot]
        unread := by rw [hun, Stream.pending, hsent, List.drop_nil, List.flatMap_nil] }

/-- **The streaming law.**  In every state of a run, what was extracted is the
front of what was inserted and `GetDataSize` is the width of the rest; extracting
the oldest value waiting ends with error code 0 and yields it; and an insertion
fails exactly when the bytes ever written leave too little room, and then leaves
the buffer as it was. -/
theorem scalar_streaming (h : Host) {st₀ st : Stream} {ops : List StreamOp}
    (hinit : (scalarStream h).init st₀) (hrun : (scalarStream h).Run st₀ ops st) :
    st.got <+: st.sent ∧
    st.serializer.pBuffer.getDataSize.toNat = totalWidth st.pending ∧
    (∀ (k : Scalar) (v value : k.Val), st.pending.head? = some ⟨k, v⟩ →
      (st.serializer.getScalar h k value).1.iError = 0 ∧
        (st.serializer.getScalar h k value).2 = v) ∧
    (∀ (k : Scalar) (value : k.Val),
      ((st.serializer.putScalar h k value).iError ≠ 0 ↔
        st.serializer.pBuffer.size.toNat <
          st₀.serializer.pBuffer.pWrite + totalWidth st.sent + k.width) ∧
      ((st.serializer.putScalar h k value).iError ≠ 0 →
        (st.serializer.putScalar h k value).pBuffer = st.serializer.pBuffer)) := by
  have hst := streams_run h hinit hrun
  refine ⟨hst.fifo, hst.dataSize, ?_, ?_⟩
  · intro k v value hhead
    exact (hst.get hhead value).1
  · intro k value
    by_cases hfit : st₀.serializer.pBuffer.pWrite + totalWidth st.sent + k.width ≤
        st₀.serializer.pBuffer.size.toNat
    · have hcode := (hst.put_fits k value hfit).1
      rw [hst.size_eq, hcode]
      exact ⟨by simp; omega, fun hne => absurd rfl hne⟩
    · have hput := hst.put_full k value (by omega)
      rw [hst.size_eq, hput, setError_iError, setError_pBuffer]
      exact ⟨by simp; omega, fun _ => rfl⟩

/-- A serializer over eight empty bytes. -/
def Stream.fresh : Stream :=
  ⟨Serializer.new (.ofData (List.replicate 8 0) 8 0) true, [], []⟩

theorem Stream.fresh_init : (scalarStream .x86_64).init Stream.fresh :=
  ⟨⟨by decide, by decide, by decide⟩, by decide, by decide, rfl, rfl⟩

/-- A word, a double word, the word taken out, and a double word that is refused. -/
def Stream.interleaved : Stream :=
  (((Stream.fresh.put .x86_64 .uInt16 513).put .x86_64 .uInt32 7).get .x86_64 .uInt16 0).put
    .x86_64 .uInt32 9

/-- Two bytes are free behind the double word: it is the next to come out, and a third
one does not fit either. -/
theorem scalar_streaming_interleaved :
    (Stream.interleaved.serializer.getScalar .x86_64 .uInt32 0).2 = 7 ∧
    (Stream.interleaved.serializer.putScalar .x86_64 .uInt32 9).iError ≠ 0 := by
  let one := Stream.fresh.put .x86_64 .uInt16 513
  let two := one.put .x86_64 .uInt32 7
  let three := two.get .x86_64 .uInt16 0
  have hone : (scalarStream .x86_64).step Stream.fresh (.put .uInt16 513) one := rfl
  have htwo : (scalarStream .x86_64).step one (.put .uInt32 7) two := rfl
  have hthree : (scalarStream .x86_64).step two (.get .uInt16 0) three := ⟨⟨513, by decide⟩, rfl⟩
  have hfour : (scalarStream .x86_64).step three (.put .uInt32 9) Stream.interleaved := rfl
  obtain ⟨-, -, hget, hput⟩ := scalar_streaming .x86_64 Stream.fresh_init
    ((((System.Run.single hone).snoc htwo).snoc hthree).snoc hfour)
  exact ⟨(hget .uInt32 7 0 (by decide)).2, ((hput .uInt32 9).1).mpr (by decide)⟩

end MyGenSvr.Ports
