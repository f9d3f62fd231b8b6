import MyGenSvr.Ports.Archive

/-!
# Round trip of the 3005 messages

Saving appends the wire form of each field (`Appends`).  Loading takes it off
again field by field, except that a string extraction consumes nothing when the
string is empty, and is off the rails when the length does not fit an `int`
(`getString_stuck`).  Since nothing later can make up for the bytes left
behind, those are exactly the values that do not survive.
-/

namespace MyGenSvr.Ports

open MyGenSvr.Verified.Buffer

/-! ## What saving appends -/

/-- `b'` is `b` with `bytes` written behind the write cursor. -/
structure Appends (b b' : DataBuffer) (bytes : List UInt8) : Prop where
  ordered : Ordered b'
  size_eq : b'.size = b.size
  read_eq : b'.pRead = b.pRead
  write_eq : b'.pWrite = b.pWrite + bytes.length
  data_eq : b'.pData = splice b.pData b.pWrite bytes

/-- The bytes between the write cursors of `b` and `b'`. -/
def written (b b' : DataBuffer) : List UInt8 :=
  (b'.pData.drop b.pWrite).take (b'.pWrite - b.pWrite)

theorem Appends.written_eq {b b' : DataBuffer} {bytes : List UInt8}
    (h : Appends b b' bytes) (hb : Ordered b) : written b b' = bytes := by
  rw [written, h.data_eq, h.write_eq, Nat.add_sub_cancel_left]
  exact splice_range hb.write_le_mem

/-- The bytes written come behind the unread ones. -/
theorem Appends.unread_eq {b b' : DataBuffer} {bytes : List UInt8}
    (h : Appends b b' bytes) (hb : Ordered b) : b'.unread = b.unread ++ bytes := by
  have hr := hb.read_le_write
  have hmem := hb.write_le_mem
  rw [DataBuffer.unread, DataBuffer.unread, ← List.drop_take, ← List.drop_take, h.read_eq,
    h.write_eq, h.data_eq, splice_take hmem]
  exact List.drop_append_of_le_length (by rw [List.length_take]; omega)

theorem Appends.trans {b b' b'' : DataBuffer} {xs ys : List UInt8}
    (h : Appends b b' xs) (h' : Appends b' b'' ys) (hb : Ordered b) :
    Appends b b'' (xs ++ ys) where
  ordered := h'.ordered
  size_eq := h'.size_eq.trans h.size_eq
  read_eq := h'.read_eq.trans h.read_eq
  write_eq := by
    rw [h'.write_eq, h.write_eq, List.length_append]
    omega
  data_eq := by
    rw [h'.data_eq, h.data_eq, h.write_eq, splice_splice hb.write_le_mem]

/-- A write that fits appends its bytes. -/
theorem write_appends {b : DataBuffer} (hb : Ordered b) {src : List UInt8}
    {length : UInt32} (hsrc : src.length = length.toNat)
    (hfit : b.pWrite + src.length ≤ b.size.toNat) :
    ∃ b', b.write src length = some b' ∧ Appends b b' src := by
  obtain ⟨b', hw, hord, hsize, hread, hwrite, -, hdata⟩ :=
    write_fits hb hsrc (by omega)
  refine ⟨b', hw, hord, hsize, hread, ?_, hdata⟩
  rw [hwrite, hsrc]

theorem putScalar_appends (h : Host) (k : Scalar) {s : Serializer}
    (hs : Ordered s.pBuffer) (v : k.Val)
    (hfit : s.pBuffer.pWrite + k.width ≤ s.pBuffer.size.toNat) :
    ∃ b', s.putScalar h k v = s.ok b' ∧
      Appends s.pBuffer b' (k.wire h s.changeByteOrder v) := by
  obtain ⟨b', hw, happ⟩ := @write_appends s.pBuffer hs
    (k.wire h s.changeByteOrder v) (UInt32.ofNat k.width)
    (by rw [wire_length, width_toNat]) (by rwa [wire_length])
  refine ⟨b', ?_, happ⟩
  rw [Serializer.putScalar, hw]

theorem putString_appends {s : Serializer} (hs : Ordered s.pBuffer)
    (str : List UInt8)
    (hfit : s.pBuffer.pWrite + (str.length + 1) ≤ s.pBuffer.size.toNat) :
    ∃ b', s.putString str = s.ok b' ∧ Appends s.pBuffer b' (str ++ [0]) := by
  have hsize := s.pBuffer.size.toNat_lt
  have hlen : (str ++ [(0 : UInt8)]).length = str.length + 1 := by simp
  obtain ⟨b', hw, happ⟩ := @write_appends s.pBuffer hs (str ++ [0])
    (UInt32.ofNat (str.length + 1))
    (by rw [hlen, toNat_ofNat32 (by omega)]) (by rwa [hlen])
  refine ⟨b', ?_, happ⟩
  rw [Serializer.putString, hw]

/-- The wire form of a request. -/
def Archv3005Req.wire (h : Host) (c : Bool) (v : Archv3005Req) : List UInt8 :=
  (v.userNumber ++ [0]) ++ Scalar.byte.wire h c v.opType

/-- The wire form of an acknowledgement. -/
def Archv3005Ack.wire (h : Host) (c : Bool) (v : Archv3005Ack) : List UInt8 :=
  Scalar.uInt16.wire h c v.errorCode ++
    ((v.userNumber ++ [0]) ++ (v.userAlias ++ [0]))

theorem Archv3005Req.wire_length (h : Host) (c : Bool) (v : Archv3005Req) :
    (v.wire h c).length = v.userNumber.length + 2 := by
  simp [wire, Ports.wire_length, Scalar.width]

theorem Archv3005Ack.wire_length (h : Host) (c : Bool) (v : Archv3005Ack) :
    (v.wire h c).length = v.userNumber.length + v.userAlias.length + 4 := by
  simp only [wire, List.length_append, Ports.wire_length, Scalar.width,
    List.length_singleton]
  omega

/-- **Saving a request** with room for it appends its wire form. -/
theorem Archv3005Req.save_appends (h : Host) (v : Archv3005Req) {s : Serializer}
    (hs : Ordered s.pBuffer) (herr : s.iError = 0)
    (hfit : s.pBuffer.pWrite + (v.wire h s.changeByteOrder).length ≤
      s.pBuffer.size.toNat) :
    (v.save h s).iError = 0 ∧
      Appends s.pBuffer (v.save h s).pBuffer (v.wire h s.changeByteOrder) := by
  rw [Archv3005Req.wire_length] at hfit
  obtain ⟨b₁, hput₁, happ₁⟩ := putString_appends hs v.userNumber (by omega)
  have hlen₁ : (v.userNumber ++ [(0 : UInt8)]).length = v.userNumber.length + 1 := by
    simp
  obtain ⟨b₂, hput₂, happ₂⟩ := @putScalar_appends h .byte (s.ok b₁) happ₁.ordered
    v.opType (by
      simp only [ok_pBuffer, happ₁.write_eq, happ₁.size_eq, hlen₁, Scalar.width]
      omega)
  have hsave : v.save h s = (s.ok b₁).ok b₂ := by
    simp only [save, entryPut, herr, if_true, hput₁, ok_iError, hput₂]
  rw [hsave]
  exact ⟨rfl, happ₁.trans happ₂ hs⟩

/-- **Saving an acknowledgement** with room for it appends its wire form. -/
theorem Archv3005Ack.save_appends (h : Host) (v : Archv3005Ack) {s : Serializer}
    (hs : Ordered s.pBuffer) (herr : s.iError = 0)
    (hfit : s.pBuffer.pWrite + (v.wire h s.changeByteOrder).length ≤
      s.pBuffer.size.toNat) :
    (v.save h s).iError = 0 ∧
      Appends s.pBuffer (v.save h s).pBuffer (v.wire h s.changeByteOrder) := by
  rw [Archv3005Ack.wire_length] at hfit
  have hlen : ∀ str : List UInt8, (str ++ [(0 : UInt8)]).length = str.length + 1 := by
    intro str
    simp
  obtain ⟨b₁, hput₁, happ₁⟩ := @putScalar_appends h .uInt16 s hs v.errorCode (by
    simp only [Scalar.width]
    omega)
  obtain ⟨b₂, hput₂, happ₂⟩ := @putString_appends (s.ok b₁) happ₁.ordered
    v.userNumber (by
      simp only [ok_pBuffer, happ₁.write_eq, happ₁.size_eq, Ports.wire_length,
        Scalar.width]
      omega)
  obtain ⟨b₃, hput₃, happ₃⟩ := @putString_appends ((s.ok b₁).ok b₂) happ₂.ordered
    v.userAlias (by
      simp only [ok_pBuffer, happ₂.write_eq, happ₂.size_eq, happ₁.write_eq,
        happ₁.size_eq, Ports.wire_length, Scalar.width, hlen]
      omega)
  have hsave : v.save h s = ((s.ok b₁).ok b₂).ok b₃ := by
    simp only [save, entryPut, herr, if_true, hput₁, ok_iError, hput₂, hput₃]
  rw [hsave]
  exact ⟨rfl, happ₁.trans (happ₂.trans happ₃ happ₁.ordered) hs⟩

/-! ## String extractions that go wrong -/

/-- The lengths a string extraction handles: not empty, and such that the
length and the step over the terminator fit an `int`. -/
def Streamable (str : List UInt8) : Prop := str ≠ [] ∧ str.length + 1 < 2 ^ 31

instance (str : List UInt8) : Decidable (Streamable str) := by
  unfold Streamable
  infer_instance

/-- **What becomes of the other strings**: an error, a wrong value, or a cursor
that has not moved on.  The three ways out of the extraction are the cases; a
length of `2 ^ 31 - 1` is the one that is assigned and then steps backwards. -/
theorem getString_stuck {s : Serializer} (ho : Ordered s.pBuffer)
    (value : List UInt8) {str rest : List UInt8} (hstr : (0 : UInt8) ∉ str)
    (hbad : ¬ Streamable str) (hun : s.pBuffer.unread = str ++ 0 :: rest)
    (herr : s.iError = 0) :
    (s.getString value).1.iError ≠ 0 ∨ (s.getString value).2 ≠ str ∨
      ((s.getString value).1.iError = 0 ∧
        (s.getString value).1.pBuffer.pRead ≤ s.pBuffer.pRead) := by
  have hscan : strlen s.pBuffer.getReadPtr = str.length := by
    rw [ho.getReadPtr_eq, hun, List.append_assoc, List.cons_append,
      strlen_append_zero hstr]
  have hmax : str.length < 2 ^ 32 := by
    have hlen := ho.unread_length
    have hw := ho.write_le_size
    have hs := s.pBuffer.size.toNat_lt
    rw [hun, List.length_append, List.length_cons] at hlen
    omega
  simp only [Serializer.getString, hscan]
  split
  · next hpos =>
      split
      · left
        simp
      · split
        · next b hb =>
            right
            right
            refine ⟨rfl, ?_⟩
            have hmove := (moveReadPtr_some hb).2
            have hne : str ≠ [] := by
              rintro rfl
              simp [toInt32] at hpos
            have hlong : ¬ str.length + 1 < 2 ^ 31 := fun hlt => hbad ⟨hne, hlt⟩
            simp only [ok_pBuffer]
            unfold toInt32 at hmove hpos
            split at hpos <;> split at hmove <;> omega
        · left
          simp
  · right
    by_cases hne : str = []
    · right
      exact ⟨herr, Nat.le_refl _⟩
    · left
      exact fun heq => hne heq.symm

/-! ## The round trip -/

/-- Loading the bytes written for `v` ends without an error, with the value
saved, and with the cursor exactly behind them. -/
def Archv3005Req.RoundTrips (h : Host) (c : Bool) (b b₂ : DataBuffer)
    (v w : Archv3005Req) : Prop :=
  (Archv3005Req.load h (.new b₂ c) w).1.iError = 0 ∧
    (Archv3005Req.load h (.new b₂ c) w).2 = v ∧
    (Archv3005Req.load h (.new b₂ c) w).1.pBuffer.pRead =
      b₂.pRead + (written b (v.save h (.new b c)).pBuffer).length

/-- The same for an acknowledgement. -/
def Archv3005Ack.RoundTrips (h : Host) (c : Bool) (b b₂ : DataBuffer)
    (v w : Archv3005Ack) : Prop :=
  (Archv3005Ack.load h (.new b₂ c) w).1.iError = 0 ∧
    (Archv3005Ack.load h (.new b₂ c) w).2 = v ∧
    (Archv3005Ack.load h (.new b₂ c) w).1.pBuffer.pRead =
      b₂.pRead + (written b (v.save h (.new b c)).pBuffer).length

section Load

variable {h : Host} {s : Serializer}

/-- Loading a request without a pending error reads the string first. -/
theorem Archv3005Req.load_of_ok (herr : s.iError = 0) (w : Archv3005Req) :
    Archv3005Req.load h s w =
      ((entryGet (Serializer.getScalar h .byte) (s.getString w.userNumber).1 w.opType).1,
        ⟨(s.getString w.userNumber).2, (entryGet (Serializer.getScalar h .byte)
          (s.getString w.userNumber).1 w.opType).2⟩) := by
  rw [load, entryGet_of_ok _ herr]

/-- Where the string of a request lies on the wire. -/
theorem Archv3005Req.unread_eq (v : Archv3005Req) {c : Bool} {trailing : List UInt8}
    {b : DataBuffer} (hun : b.unread = v.wire h c ++ trailing) :
    b.unread = v.userNumber ++ 0 :: (Scalar.byte.wire h c v.opType ++ trailing) := by
  rw [hun, wire]
  simp

/-- Loading a request whose string can be streamed. -/
theorem Archv3005Req.load_of_streamable (ho : Ordered s.pBuffer)
    (herr : s.iError = 0) (v w : Archv3005Req) (trailing : List UInt8)
    (hnul : (0 : UInt8) ∉ v.userNumber) (hgood : Streamable v.userNumber)
    (hun : s.pBuffer.unread = v.wire h s.changeByteOrder ++ trailing) :
    (Archv3005Req.load h s w).1.iError = 0 ∧ (Archv3005Req.load h s w).2 = v ∧
      (Archv3005Req.load h s w).1.pBuffer.pRead =
        s.pBuffer.pRead + (v.wire h s.changeByteOrder).length := by
  have hun₁ := v.unread_eq hun
  have hstep₁ := getString_terminated ho w.userNumber v.userNumber _ hnul hgood.1
    hgood.2 hun₁
  have hle : v.userNumber.length + 1 ≤ s.pBuffer.unread.length := by
    rw [hun₁, List.length_append, List.length_cons]
    omega
  have hun₂ : (s.ok { s.pBuffer with pRead :=
      s.pBuffer.pRead + (v.userNumber.length + 1) }).pBuffer.unread =
      Scalar.byte.wire h s.changeByteOrder v.opType ++ trailing := by
    rw [ok_pBuffer, unread_advance, hun₁, ← List.drop_drop, List.drop_left]
    rfl
  have hstep₂ := getScalar_of_unread h .byte (ho.advance hle) w.opType v.opType
    trailing hun₂
  have hlen := v.wire_length h s.changeByteOrder
  rw [load_of_ok herr, hstep₁, entryGet_of_ok _ (ok_iError _ _), hstep₂]
  refine ⟨rfl, rfl, ?_⟩
  simp only [ok_pBuffer, Scalar.width, hlen]
  omega

/-- Nothing after the string makes up for the bytes it left behind.  The result
`r` of the string extraction is kept abstract, so that no step of the proof
evaluates the scan. -/
theorem Archv3005Req.load_rest_fails {r : Serializer × List UInt8}
    {x : Serializer × Archv3005Req} {v : Archv3005Req} {p : Nat} {o : UInt8}
    (hx : x = ((entryGet (Serializer.getScalar h .byte) r.1 o).1,
      ⟨r.2, (entryGet (Serializer.getScalar h .byte) r.1 o).2⟩))
    (hstuck : r.1.iError ≠ 0 ∨ r.2 ≠ v.userNumber ∨
      (r.1.iError = 0 ∧ r.1.pBuffer.pRead ≤ p)) :
    ¬ (x.1.iError = 0 ∧ x.2 = v ∧
      x.1.pBuffer.pRead = p + (v.userNumber.length + 2)) := by
  subst hx
  rintro ⟨herr₂, hval, hcur⟩
  rcases hstuck with hfail | hwrong | ⟨hok, hback⟩
  · rw [entryGet_of_error _ hfail] at herr₂
    exact hfail herr₂
  · exact hwrong (congrArg Archv3005Req.userNumber hval)
  · rw [entryGet_of_ok _ hok] at hcur
    dsimp only at hcur
    have hframe := (getScalar_frame h .byte r.1 o).2
    simp only [Scalar.width] at hframe
    omega

/-- Loading any other request goes wrong. -/
theorem Archv3005Req.load_of_not_streamable (ho : Ordered s.pBuffer)
    (herr : s.iError = 0) (v w : Archv3005Req) (trailing : List UInt8)
    (hnul : (0 : UInt8) ∉ v.userNumber) (hbad : ¬ Streamable v.userNumber)
    (hun : s.pBuffer.unread = v.wire h s.changeByteOrder ++ trailing) :
    ¬ ((Archv3005Req.load h s w).1.iError = 0 ∧ (Archv3005Req.load h s w).2 = v ∧
      (Archv3005Req.load h s w).1.pBuffer.pRead =
        s.pBuffer.pRead + (v.wire h s.changeByteOrder).length) := by
  rw [v.wire_length]
  exact load_rest_fails (load_of_ok herr w)
    (getString_stuck ho w.userNumber hnul hbad (v.unread_eq hun) herr)

/-- Loading an acknowledgement without a pending error reads the code first. -/
theorem Archv3005Ack.load_of_ok (ho : Ordered s.pBuffer) (herr : s.iError = 0)
    (v w : Archv3005Ack) (rest : List UInt8)
    (hun : s.pBuffer.unread = Scalar.uInt16.wire h s.changeByteOrder v.errorCode ++ rest) :
    ∃ s₁ : Serializer, s₁ = s.ok { s.pBuffer with pRead := s.pBuffer.pRead + 2 } ∧
      Archv3005Ack.load h s w =
        ((entryGet Serializer.getString (s₁.getString w.userNumber).1 w.userAlias).1,
          ⟨v.errorCode, (s₁.getString w.userNumber).2,
            (entryGet Serializer.getString (s₁.getString w.userNumber).1
              w.userAlias).2⟩) := by
  have hstep := getScalar_of_unread h .uInt16 ho w.errorCode v.errorCode rest hun
  refine ⟨_, rfl, ?_⟩
  simp only [load, entryGet_of_ok _ herr, hstep, entryGet_of_ok _ (ok_iError s _)]
  rfl

/-- Where the strings of an acknowledgement lie on the wire. -/
theorem Archv3005Ack.unread_eq (v : Archv3005Ack) {c : Bool} {trailing : List UInt8}
    {b : DataBuffer} (hun : b.unread = v.wire h c ++ trailing) :
    b.unread = Scalar.uInt16.wire h c v.errorCode ++
      (v.userNumber ++ 0 :: (v.userAlias ++ 0 :: trailing)) := by
  rw [hun, wire]
  simp

/-- Moving the cursor over a prefix of the unread bytes. -/
theorem unread_after {b : DataBuffer} {front rest : List UInt8} {n : Nat}
    (hn : front.length = n) (hun : b.unread = front ++ rest) :
    DataBuffer.unread { b with pRead := b.pRead + n } = rest := by
  rw [unread_advance, hun, ← hn, List.drop_left]

theorem ordered_after {b : DataBuffer} {front rest : List UInt8} {n : Nat}
    (ho : Ordered b) (hn : front.length = n) (hun : b.unread = front ++ rest) :
    Ordered { b with pRead := b.pRead + n } := by
  apply ho.advance
  rw [hun, List.length_append, hn]
  exact Nat.le_add_right _ _

/-- A serializer that has extracted `front`. -/
theorem ok_after {s s₁ : Serializer} {front rest : List UInt8} {n : Nat}
    (hs₁ : s₁ = s.ok { s.pBuffer with pRead := s.pBuffer.pRead + n })
    (ho : Ordered s.pBuffer) (hn : front.length = n) (hun : s.pBuffer.unread = front ++ rest) :
    Ordered s₁.pBuffer ∧ s₁.pBuffer.unread = rest ∧ s₁.iError = 0 ∧
      s₁.pBuffer.pRead = s.pBuffer.pRead + n := by
  rw [hs₁]
  exact ⟨ordered_after ho hn hun, unread_after hn hun, rfl, rfl⟩

/-- A string with its terminator, as the front of the unread bytes. -/
theorem terminated_front {b : DataBuffer} {str rest : List UInt8}
    (hun : b.unread = str ++ 0 :: rest) :
    b.unread = (str ++ [0]) ++ rest ∧ (str ++ [(0 : UInt8)]).length = str.length + 1 := by
  constructor
  · rw [hun]
    simp
  · simp

/-- Loading an acknowledgement whose strings can be streamed. -/
theorem Archv3005Ack.load_of_streamable (ho : Ordered s.pBuffer)
    (herr : s.iError = 0) (v w : Archv3005Ack) (trailing : List UInt8)
    (hnul₁ : (0 : UInt8) ∉ v.userNumber) (hnul₂ : (0 : UInt8) ∉ v.userAlias)
    (hgood₁ : Streamable v.userNumber) (hgood₂ : Streamable v.userAlias)
    (hun : s.pBuffer.unread = v.wire h s.changeByteOrder ++ trailing) :
    (Archv3005Ack.load h s w).1.iError = 0 ∧ (Archv3005Ack.load h s w).2 = v ∧
      (Archv3005Ack.load h s w).1.pBuffer.pRead =
        s.pBuffer.pRead + (v.wire h s.changeByteOrder).length := by
  have hun₀ := v.unread_eq hun
  obtain ⟨s₁, hs₁, hload⟩ := load_of_ok ho herr v w _ hun₀
  have hwidth := Ports.wire_length h s.changeByteOrder .uInt16 v.errorCode
  obtain ⟨ho₁, hun₁, _, hread⟩ := ok_after hs₁ ho hwidth hun₀
  have hstep₁ := getString_terminated ho₁ w.userNumber v.userNumber _ hnul₁ hgood₁.1
    hgood₁.2 hun₁
  obtain ⟨hfront, hlen₁⟩ := terminated_front hun₁
  have hstep₂ := @getString_terminated
    (s₁.ok { s₁.pBuffer with pRead := s₁.pBuffer.pRead + (v.userNumber.length + 1) })
    (ordered_after ho₁ hlen₁ hfront) w.userAlias v.userAlias trailing hnul₂ hgood₂.1
    hgood₂.2 (unread_after hlen₁ hfront)
  have hlen := v.wire_length h s.changeByteOrder
  rw [hload, hstep₁, entryGet_of_ok _ (ok_iError _ _), hstep₂]
  refine ⟨rfl, rfl, ?_⟩
  simp only [ok_pBuffer, hlen, hread]
  omega

/-- A string extraction that starts no later than a terminator ends no later
than just behind it. -/
theorem getString_pRead_le_of_terminator {q n : Nat} (value : List UInt8)
    (hzero : s.pBuffer.pData[q + n]? = some 0) (hle : s.pBuffer.pRead ≤ q) :
    (s.getString value).1.pBuffer.pRead ≤ q + n + 1 := by
  have hbound := getString_pRead_le s value
  have hscan : strlen s.pBuffer.getReadPtr ≤ q + n - s.pBuffer.pRead := by
    apply strlen_le_of_getElem?
    rw [DataBuffer.getReadPtr, List.getElem?_drop]
    rwa [Nat.add_sub_cancel' (by omega)]
  omega

/-- A stuck first string of an acknowledgement leaves its own terminator in the
way of the second one.  The results `r` and `r'` of the two extractions are kept
abstract. -/
theorem Archv3005Ack.load_rest_fails {r r' : Serializer × List UInt8}
    {x : Serializer × Archv3005Ack} {v : Archv3005Ack} {q : Nat} {a : List UInt8}
    {e : UInt16} (hr' : r' = entryGet Serializer.getString r.1 a)
    (hx : x = (r'.1, ⟨e, r.2, r'.2⟩))
    (hzero : r.1.pBuffer.pData[q + v.userNumber.length]? = some 0)
    (hstuck : r.1.iError ≠ 0 ∨ r.2 ≠ v.userNumber ∨
      (r.1.iError = 0 ∧ r.1.pBuffer.pRead ≤ q)) :
    ¬ (x.1.iError = 0 ∧ x.2 = v ∧ x.1.pBuffer.pRead =
      q + (v.userNumber.length + v.userAlias.length + 2)) := by
  subst hx
  rintro ⟨herr₂, hval, hcur⟩
  rcases hstuck with hfail | hwrong | ⟨hok, hback⟩
  · rw [hr', entryGet_of_error _ hfail] at herr₂
    exact hfail herr₂
  · exact hwrong (congrArg Archv3005Ack.userNumber hval)
  · have hframe := getString_pRead_le_of_terminator a hzero hback
    rw [entryGet_of_ok _ hok] at hr'
    rw [← hr'] at hframe
    dsimp only at hcur
    omega

/-- A stuck last string cannot reach the end of the message. -/
theorem Archv3005Ack.load_last_fails {r : Serializer × List UInt8}
    {x : Serializer × Archv3005Ack} {v : Archv3005Ack} {q : Nat} {e : UInt16}
    {n : List UInt8} (hx : x = (r.1, ⟨e, n, r.2⟩))
    (hstuck : r.1.iError ≠ 0 ∨ r.2 ≠ v.userAlias ∨
      (r.1.iError = 0 ∧ r.1.pBuffer.pRead ≤ q)) :
    ¬ (x.1.iError = 0 ∧ x.2 = v ∧ x.1.pBuffer.pRead =
      q + (v.userAlias.length + 1)) := by
  subst hx
  rintro ⟨herr, hval, hcur⟩
  rcases hstuck with hfail | hwrong | ⟨-, hback⟩
  · exact hfail herr
  · exact hwrong (congrArg Archv3005Ack.userAlias hval)
  · dsimp only at hcur
    omega

/-- Loading any other acknowledgement goes wrong: the first string that cannot
be streamed is the one everything behind it trips over. -/
theorem Archv3005Ack.load_of_not_streamable (ho : Ordered s.pBuffer)
    (herr : s.iError = 0) (v w : Archv3005Ack) (trailing : List UInt8)
    (hnul₁ : (0 : UInt8) ∉ v.userNumber) (hnul₂ : (0 : UInt8) ∉ v.userAlias)
    (hbad : ¬ (Streamable v.userNumber ∧ Streamable v.userAlias))
    (hun : s.pBuffer.unread = v.wire h s.changeByteOrder ++ trailing) :
    ¬ ((Archv3005Ack.load h s w).1.iError = 0 ∧ (Archv3005Ack.load h s w).2 = v ∧
      (Archv3005Ack.load h s w).1.pBuffer.pRead =
        s.pBuffer.pRead + (v.wire h s.changeByteOrder).length) := by
  have hun₀ := v.unread_eq hun
  obtain ⟨s₁, hs₁, hload⟩ := load_of_ok ho herr v w _ hun₀
  have hwidth := Ports.wire_length h s.changeByteOrder .uInt16 v.errorCode
  obtain ⟨ho₁, hun₁, herr₁, hread⟩ := ok_after hs₁ ho hwidth hun₀
  have hlen := v.wire_length h s.changeByteOrder
  by_cases hgood₁ : Streamable v.userNumber
  · have hbad₂ : ¬ Streamable v.userAlias := fun hgood₂ => hbad ⟨hgood₁, hgood₂⟩
    have hstep₁ := getString_terminated ho₁ w.userNumber v.userNumber _ hnul₁ hgood₁.1
      hgood₁.2 hun₁
    obtain ⟨hfront, hlen₁⟩ := terminated_front hun₁
    obtain ⟨s₂, hs₂⟩ : ∃ s₂, s₂ =
        s₁.ok { s₁.pBuffer with pRead := s₁.pBuffer.pRead + (v.userNumber.length + 1) } :=
      ⟨_, rfl⟩
    obtain ⟨ho₂, hun₂, herr₂, hread₂⟩ := ok_after hs₂ ho₁ hlen₁ hfront
    rw [hstep₁, ← hs₂, entryGet_of_ok _ herr₂] at hload
    have hend : s.pBuffer.pRead + (v.wire h s.changeByteOrder).length =
        s₂.pBuffer.pRead + (v.userAlias.length + 1) := by
      omega
    rw [hend]
    exact load_last_fails hload
      (getString_stuck ho₂ w.userAlias hnul₂ hbad₂ hun₂ herr₂)
  · have hend : s.pBuffer.pRead + (v.wire h s.changeByteOrder).length =
        s₁.pBuffer.pRead + (v.userNumber.length + v.userAlias.length + 2) := by
      omega
    have hzero : (s₁.getString w.userNumber).1.pBuffer.pData[
        s₁.pBuffer.pRead + v.userNumber.length]? = some 0 := by
      have hmem : s₁.pBuffer.getReadPtr[v.userNumber.length]? = some 0 := by
        rw [ho₁.getReadPtr_eq, hun₁]
        simp
      rw [getString_pData, ← List.getElem?_drop]
      exact hmem
    rw [hend]
    exact load_rest_fails rfl hload hzero
      (getString_stuck ho₁ w.userNumber hnul₁ hgood₁ hun₁ herr₁)

end Load

/-! ## Main results -/

section RoundTrip

variable {h : Host} {c : Bool} {b b₂ : DataBuffer} {trailing : List UInt8}

theorem Archv3005Req.roundTrips_iff (v w : Archv3005Req) (hb : Ordered b)
    (hb₂ : Ordered b₂) (hnul : (0 : UInt8) ∉ v.userNumber)
    (hroom : b.pWrite + (v.wire h c).length ≤ b.size.toNat)
    (hun : b₂.unread = written b (v.save h (.new b c)).pBuffer ++ trailing) :
    (v.save h (.new b c)).iError = 0 ∧
      (v.RoundTrips h c b b₂ w ↔ Streamable v.userNumber) := by
  obtain ⟨hok, happ⟩ := @save_appends h v (.new b c) hb rfl hroom
  have hwritten : written b (v.save h (.new b c)).pBuffer = v.wire h c :=
    happ.written_eq hb
  rw [hwritten] at hun
  refine ⟨hok, ?_⟩
  rw [RoundTrips, hwritten]
  constructor
  · intro hround
    by_contra hbad
    exact @load_of_not_streamable h (.new b₂ c) hb₂ rfl v w trailing hnul hbad hun hround
  · intro hgood
    exact @load_of_streamable h (.new b₂ c) hb₂ rfl v w trailing hnul hgood hun

theorem Archv3005Ack.roundTrips_iff (v w : Archv3005Ack) (hb : Ordered b)
    (hb₂ : Ordered b₂) (hnul₁ : (0 : UInt8) ∉ v.userNumber)
    (hnul₂ : (0 : UInt8) ∉ v.userAlias)
    (hroom : b.pWrite + (v.wire h c).length ≤ b.size.toNat)
    (hun : b₂.unread = written b (v.save h (.new b c)).pBuffer ++ trailing) :
    (v.save h (.new b c)).iError = 0 ∧
      (v.RoundTrips h c b b₂ w ↔ Streamable v.userNumber ∧ Streamable v.userAlias) := by
  obtain ⟨hok, happ⟩ := @save_appends h v (.new b c) hb rfl hroom
  have hwritten : written b (v.save h (.new b c)).pBuffer = v.wire h c :=
    happ.written_eq hb
  rw [hwritten] at hun
  refine ⟨hok, ?_⟩
  rw [RoundTrips, hwritten]
  constructor
  · intro hround
    by_contra hbad
    exact @load_of_not_streamable h (.new b₂ c) hb₂ rfl v w trailing hnul₁ hnul₂ hbad
      hun hround
  · rintro ⟨hgood₁, hgood₂⟩
    exact @load_of_streamable h (.new b₂ c) hb₂ rfl v w trailing hnul₁ hnul₂ hgood₁
      hgood₂ hun

end RoundTrip

/-- **When the 3005 messages round-trip**: saving with room never fails, and
loading gives the value back exactly when every string of it is streamable. -/
theorem archv3005_round_trips_iff (h : Host) (c : Bool) (b b₂ : DataBuffer)
    (hb : Ordered b) (hb₂ : Ordered b₂) (trailing : List UInt8) :
    (∀ v w : Archv3005Req, (0 : UInt8) ∉ v.userNumber →
      b.pWrite + (v.wire h c).length ≤ b.size.toNat →
      b₂.unread = written b (v.save h (.new b c)).pBuffer ++ trailing →
      (v.save h (.new b c)).iError = 0 ∧
        (v.RoundTrips h c b b₂ w ↔ Streamable v.userNumber)) ∧
    (∀ v w : Archv3005Ack, (0 : UInt8) ∉ v.userNumber → (0 : UInt8) ∉ v.userAlias →
      b.pWrite + (v.wire h c).length ≤ b.size.toNat →
      b₂.unread = written b (v.save h (.new b c)).pBuffer ++ trailing →
      (v.save h (.new b c)).iError = 0 ∧
        (v.RoundTrips h c b b₂ w ↔
          Streamable v.userNumber ∧ Streamable v.userAlias)) := by
  constructor
  · intro v w hnul hroom hun
    exact v.roundTrips_iff w hb hb₂ hnul hroom hun
  · intro v w hnul₁ hnul₂ hroom hun
    exact v.roundTrips_iff w hb hb₂ hnul₁ hnul₂ hroom hun

/-- Both messages through one eight-byte buffer: the request with a number
comes back, the acknowledgement with an empty alias does not. -/
theorem archv3005_round_trips_iff_small :
    let b := DataBuffer.ofData (List.replicate 8 0) 8 0
    let req : Archv3005Req := ⟨[49, 51], 7⟩
    let ack : Archv3005Ack := ⟨2, [49], []⟩
    let b₂ := (req.save .x86_64 (.new b true)).pBuffer
    let b₃ := (ack.save .x86_64 (.new b true)).pBuffer
    req.RoundTrips .x86_64 true b b₂ .init ∧
      ¬ ack.RoundTrips .x86_64 true b b₃ ⟨0, [], []⟩ := by
  intro b req ack b₂ b₃
  have hb : Ordered b := ⟨by decide, by decide, by decide⟩
  have hb₂ : Ordered b₂ := ⟨by decide, by decide, by decide⟩
  have hb₃ : Ordered b₃ := ⟨by decide, by decide, by decide⟩
  have hreq := (archv3005_round_trips_iff .x86_64 true b b₂ hb hb₂ []).1 req .init
    (by decide) (by decide) (by decide)
  have hack := (archv3005_round_trips_iff .x86_64 true b b₃ hb hb₃ []).2 ack ⟨0, [], []⟩
    (by decide) (by decide) (by decide) (by decide)
  exact ⟨hreq.2.mpr (by decide), fun hround => absurd (hack.2.mp hround) (by decide)⟩

/-- **The empty string is left on the wire**: a request with no number and
operation 1 comes back with operation 0. -/
theorem archv3005Req_empty_number_lost :
    ¬ ∀ (h : Host) (c : Bool) (v w : Archv3005Req) (b b₂ : DataBuffer)
      (trailing : List UInt8), Ordered b → Ordered b₂ → (0 : UInt8) ∉ v.userNumber →
      b.pWrite + (v.wire h c).length ≤ b.size.toNat →
      (v.save h (.new b c)).iError = 0 →
      b₂.unread = written b (v.save h (.new b c)).pBuffer ++ trailing →
      v.RoundTrips h c b b₂ w := by
  intro hall
  have hround := hall .x86_64 true ⟨[], 1⟩ .init
    (.ofData (List.replicate 4 0) 4 0) (.ofData [0, 1] 2 2) []
    ⟨by decide, by decide, by decide⟩ ⟨by decide, by decide, by decide⟩
    (by decide) (by decide) (by decide) (by decide)
  exact absurd hround.2.1 (by decide)

end MyGenSvr.Ports
