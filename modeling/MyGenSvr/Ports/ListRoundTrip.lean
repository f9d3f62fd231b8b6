import MyGenSvr.Ports.LoadErrors

/-!
# Round trip of a `List`

The loading loop of `List` extracts every element into one local and appends it.
`LoadsOver` is the specification of such an extraction: what becomes of the local
may depend on what the element before left in it.

The element count is 16 bits wide.  A longer `List` is sent with the low bits of
its length, so that as many of its elements come back as these bits say.

## Main results

* `LoadsOver.list_load` — a `List` is loaded by loading its elements in turn.
* `scalar_list_round_trip_iff` — which lists of scalars come back.
-/

namespace MyGenSvr.Ports

open MyGenSvr.Verified.Buffer

/-- From `s` to `s'` a load took `n` unread bytes and nothing failed. -/
structure Loaded (s s' : Serializer) (n : Nat) : Prop where
  noError : s'.iError = 0
  mode_eq : s'.changeByteOrder = s.changeByteOrder
  buffer_eq : s'.pBuffer = { s.pBuffer with pRead := s.pBuffer.pRead + n }

/-- The elements as a loop leaves them that loads each over the one before. -/
def carryLoop {α : Type} (carry : α → α → α) : α → List α → List α
  | _, [] => []
  | t, x :: xs => carry t x :: carryLoop carry (carry t x) xs

/-- `get` loads the bytes sent for `x`, and leaves `carry t x` in a variable that
held `t`. -/
def LoadsOver {α : Type} (get : Serializer → α → Serializer × α)
    (wire : Bool → α → List UInt8) (carry : α → α → α) (x : α) : Prop :=
  ∀ (s : Serializer) (t : α) (rest : List UInt8), Ordered s.pBuffer → s.iError = 0 →
    s.pBuffer.unread = wire s.changeByteOrder x ++ rest →
    Loaded s (get s t).1 (wire s.changeByteOrder x).length ∧ (get s t).2 = carry t x

/-- What came back from the bytes of `l` is `l`. -/
def Ty.DecodesBack (h : Host) (t : Ty) (l : List t.Val) (d : Serializer) : Prop :=
  let r := (Ty.list t).get h d ([] : List t.Val)
  r.1.iError = 0 ∧ r.2 = l

/-! ## Loading in turn -/

section Turn

variable {s s' s'' : Serializer}

theorem Loaded.refl (herr : s.iError = 0) : Loaded s s 0 := ⟨herr, rfl, rfl⟩

theorem Loaded.trans {m n : Nat} (h : Loaded s s' m) (h' : Loaded s' s'' n) :
    Loaded s s'' (m + n) where
  noError := h'.noError
  mode_eq := h'.mode_eq.trans h.mode_eq
  buffer_eq := by
    rw [h'.buffer_eq, h.buffer_eq]
    simp only [Nat.add_assoc]

/-- What is left unread behind a piece that was loaded. -/
theorem Loaded.rest {bytes rest : List UInt8} (h : Loaded s s' bytes.length)
    (ho : Ordered s.pBuffer) (hun : s.pBuffer.unread = bytes ++ rest) :
    Ordered s'.pBuffer ∧ s'.pBuffer.unread = rest := by
  have hle : bytes.length ≤ s.pBuffer.unread.length := by
    rw [hun, List.length_append]
    omega
  rw [h.buffer_eq, unread_advance, hun, List.drop_left]
  exact ⟨ho.advance hle, rfl⟩

/-- A scalar is loaded whatever the variable held and the error code was. -/
theorem scalar_loaded (h : Host) (k : Scalar) (ho : Ordered s.pBuffer) (t x : k.Val)
    (rest : List UInt8) (hun : s.pBuffer.unread = k.wire h s.changeByteOrder x ++ rest) :
    Loaded s (s.getScalar h k t).1 (k.wire h s.changeByteOrder x).length ∧
      (s.getScalar h k t).2 = x := by
  rw [getScalar_of_unread h k ho t x rest hun, Ports.wire_length]
  exact ⟨⟨rfl, rfl, rfl⟩, rfl⟩

theorem scalar_loadsOver (h : Host) (k : Scalar) (x : k.Val) :
    LoadsOver (Serializer.getScalar h k) (k.wire h) (fun _ x => x) x := by
  intro s t rest ho _ hun
  exact scalar_loaded h k ho t x rest hun

variable {α : Type} {get : Serializer → α → Serializer × α} {wire : Bool → α → List UInt8}
  {carry : α → α → α}

/-- **The loading loop** over elements that are all there. -/
theorem LoadsOver.loadLoop {xs : List α} (hget : ∀ x ∈ xs, LoadsOver get wire carry x) :
    ∀ (s : Serializer) (t : α) (acc : List α) (rest : List UInt8), Ordered s.pBuffer →
      s.iError = 0 → s.pBuffer.unread = xs.flatMap (wire s.changeByteOrder) ++ rest →
      Loaded s (loadLoop get xs.length s t acc).1
          (xs.flatMap (wire s.changeByteOrder)).length ∧
        (loadLoop get xs.length s t acc).2 = acc ++ carryLoop carry t xs := by
  induction xs with
  | nil =>
      intro s t acc rest _ herr _
      exact ⟨Loaded.refl herr, (List.append_nil acc).symm⟩
  | cons x xs ih =>
      intro s t acc rest ho herr hun
      rw [List.flatMap_cons, List.append_assoc] at hun
      obtain ⟨hhead, hvalue⟩ := hget x List.mem_cons_self s t _ ho herr hun
      obtain ⟨ho', hun'⟩ := hhead.rest ho hun
      rw [← hhead.mode_eq] at hun'
      obtain ⟨hrest, hvalues⟩ := ih (fun y hy => hget y (List.mem_cons_of_mem _ hy))
        (get s t).1 (get s t).2 (acc ++ [(get s t).2]) rest ho' hhead.noError hun'
      rw [hhead.mode_eq] at hrest
      rw [List.length_cons, Ports.loadLoop, List.flatMap_cons, List.length_append, hvalues,
        hvalue, carryLoop, List.append_assoc, List.singleton_append]
      rw [hvalue] at hrest
      exact ⟨hhead.trans hrest, rfl⟩

theorem carryLoop_replace (t : α) (xs : List α) : carryLoop (fun _ x => x) t xs = xs := by
  induction xs generalizing t with
  | nil => rfl
  | cons x xs ih => rw [carryLoop, ih]

end Turn

/-! ## A `List` -/

section OfList

variable {h : Host} {t : Ty} {s : Serializer}

/-- A `List` whose count is there is as many elements. -/
theorem Ty.get_list_counted (ho : Ordered s.pBuffer) (v : List t.Val) (size : UInt16)
    (rest : List UInt8)
    (hun : s.pBuffer.unread = Scalar.uInt16.wire h s.changeByteOrder size ++ rest) :
    (Ty.list t).get h s v =
      Ports.loadLoop (t.get h) size.toNat
        (s.ok { s.pBuffer with pRead := s.pBuffer.pRead + Scalar.uInt16.width })
        (t.fresh h) v := by
  have hcount := getScalar_of_unread h .uInt16 ho (0 : UInt16) size rest hun
  simp only [Ty.get, hcount]
  exact loadLoop_of_count (t.get h) size _ (t.fresh h) v

/-- **A `List` is loaded by loading its elements in turn.** -/
theorem LoadsOver.list_load {carry : t.Val → t.Val → t.Val} {xs : List t.Val}
    (hget : ∀ x ∈ xs, LoadsOver (t.get h) (t.wire h) carry x) (hlen : xs.length ≤ 65535)
    (ho : Ordered s.pBuffer) (v : List t.Val) (rest : List UInt8)
    (hun : s.pBuffer.unread =
      (Scalar.uInt16.wire h s.changeByteOrder (UInt16.ofNat xs.length) ++
        xs.flatMap (t.wire h s.changeByteOrder)) ++ rest) :
    Loaded s ((Ty.list t).get h s v).1
        (2 + (xs.flatMap (t.wire h s.changeByteOrder)).length) ∧
      ((Ty.list t).get h s v).2 = List.append v (carryLoop carry (t.fresh h) xs) := by
  rw [List.append_assoc] at hun
  have hcount : Loaded s
      (s.ok { s.pBuffer with pRead := s.pBuffer.pRead + Scalar.uInt16.width })
      (Scalar.uInt16.wire h s.changeByteOrder (UInt16.ofNat xs.length)).length := by
    rw [Ports.wire_length]
    exact ⟨rfl, rfl, rfl⟩
  obtain ⟨ho', hun'⟩ := hcount.rest ho hun
  have hsize : (UInt16.ofNat xs.length).toNat = xs.length :=
    UInt16.toNat_ofNat_of_lt' (Nat.lt_of_le_of_lt hlen (by decide))
  have hloop := LoadsOver.loadLoop hget _ (t.fresh h) v rest ho' rfl hun'
  rw [Ty.get_list_counted ho v _ _ hun, hsize]
  refine ⟨?_, hloop.2⟩
  have hboth := hcount.trans hloop.1
  rw [Ports.wire_length] at hboth
  exact hboth

end OfList

/-! ## Lists of scalars -/

theorem scalarList_sent (h : Host) (c : Bool) (k : Scalar) (l : List k.Val) :
    (Ty.list (.scalar k)).sent h c l =
      Scalar.uInt16.wire h c (UInt16.ofNat l.length) ++
        if UInt16.ofNat l.length > 0 then l.flatMap (k.wire h c) else [] := rfl

theorem scalarList_extent (k : Scalar) (l : List k.Val) :
    (Ty.list (.scalar k)).extent l = 2 + l.length * k.width := by
  show 2 + (List.map (fun _ => k.width) l).sum = _
  rw [List.map_const', List.sum_replicate, smul_eq_mul]

/-- What is sent for a list of scalars: the low 16 bits of its length, as many of its
elements, and either all that are left or none. -/
theorem scalarList_sent_counted (h : Host) (c : Bool) (k : Scalar) (l : List k.Val) :
    ∃ skipped : List UInt8,
      (Ty.list (.scalar k)).sent h c l =
        (Scalar.uInt16.wire h c (UInt16.ofNat (l.take (l.length % 2 ^ 16)).length) ++
          (l.take (l.length % 2 ^ 16)).flatMap (k.wire h c)) ++ skipped ∧
      (l.length ≤ 65535 → skipped = []) := by
  have hmod : l.length % 2 ^ 16 ≤ l.length := Nat.mod_le _ _
  have hcount : UInt16.ofNat (l.take (l.length % 2 ^ 16)).length = UInt16.ofNat l.length := by
    rw [List.length_take, Nat.min_eq_left hmod]
    apply UInt16.toNat_inj.mp
    rw [UInt16.toNat_ofNat', UInt16.toNat_ofNat', Nat.mod_mod]
  have hsize : (UInt16.ofNat l.length).toNat = l.length % 2 ^ 16 := UInt16.toNat_ofNat'
  rw [hcount, scalarList_sent]
  by_cases hpos : UInt16.ofNat l.length > 0
  · refine ⟨(l.drop (l.length % 2 ^ 16)).flatMap (k.wire h c), ?_, ?_⟩
    · rw [if_pos hpos, List.append_assoc, ← List.flatMap_append, List.take_append_drop]
    · intro hshort
      rw [Nat.mod_eq_of_lt (by omega), List.drop_length, List.flatMap_nil]
  · have hzero : l.length % 2 ^ 16 = 0 := by
      rw [← hsize]
      exact Nat.eq_zero_of_not_pos hpos
    refine ⟨[], ?_, fun _ => rfl⟩
    rw [if_neg hpos, hzero, List.take_zero, List.flatMap_nil, List.append_nil,
      List.append_nil]

/-- Loading a list of scalars into an empty one. -/
theorem scalarList_load (h : Host) (k : Scalar) {xs : List k.Val} (hlen : xs.length ≤ 65535)
    {d : Serializer} (hd : Ordered d.pBuffer) (rest : List UInt8)
    (hun : d.pBuffer.unread =
      (Scalar.uInt16.wire h d.changeByteOrder (UInt16.ofNat xs.length) ++
        xs.flatMap (k.wire h d.changeByteOrder)) ++ rest) :
    Loaded d ((Ty.list (.scalar k)).get h d ([] : List k.Val)).1
        (2 + (xs.flatMap (k.wire h d.changeByteOrder)).length) ∧
      ((Ty.list (.scalar k)).get h d ([] : List k.Val)).2 = xs := by
  have hget : ∀ x ∈ xs, LoadsOver ((Ty.scalar k).get h) ((Ty.scalar k).wire h)
      (fun _ x => x) x := fun x _ => scalar_loadsOver h k x
  obtain ⟨hload, hvalue⟩ :=
    @LoadsOver.list_load h (.scalar k) d (fun _ x => x) xs hget hlen hd [] rest hun
  exact ⟨hload, hvalue.trans (carryLoop_replace (h.uninit k) xs)⟩

/-- The bytes of a list of scalars in a buffer with room for it. -/
theorem scalarList_saved (h : Host) (k : Scalar) (l : List k.Val) {s : Serializer}
    (hs : Ordered s.pBuffer)
    (hfit : s.pBuffer.pWrite + (2 + l.length * k.width) ≤ s.pBuffer.size.toNat) :
    ((Ty.list (.scalar k)).put h l s).iError = 0 ∧
      written s.pBuffer ((Ty.list (.scalar k)).put h l s).pBuffer =
        (Ty.list (.scalar k)).sent h s.changeByteOrder l := by
  have hextent := Ty.sent_length_le h s.changeByteOrder (.list (.scalar k)) l
  rw [scalarList_extent] at hextent
  have hsaved := Ty.put_list_saved (Ty.put_accepting h (.scalar k)) hs l (by omega)
  exact ⟨hsaved.noError, hsaved.appends.written_eq hs⟩

/-- **What is decoded from a list of scalars**: as many elements as the low 16 bits of its
length say, without an error. -/
theorem scalarList_decoded (h : Host) (k : Scalar) (l : List k.Val) {d : Serializer}
    (hd : Ordered d.pBuffer) (rest : List UInt8)
    (hun : d.pBuffer.unread = (Ty.list (.scalar k)).sent h d.changeByteOrder l ++ rest) :
    let r := (Ty.list (.scalar k)).get h d ([] : List k.Val)
    r.1.iError = 0 ∧ r.2 = l.take (l.length % 2 ^ 16) ∧
      (l.length ≤ 65535 → r.1.pBuffer.pRead =
        d.pBuffer.pRead + ((Ty.list (.scalar k)).sent h d.changeByteOrder l).length) := by
  obtain ⟨skipped, hsent, hnone⟩ := scalarList_sent_counted h d.changeByteOrder k l
  have hmod : l.length % 2 ^ 16 < 2 ^ 16 := Nat.mod_lt _ (by decide)
  have hlen : (l.take (l.length % 2 ^ 16)).length ≤ 65535 := by
    rw [List.length_take]
    omega
  rw [hsent, List.append_assoc] at hun
  obtain ⟨hload, hvalue⟩ := scalarList_load h k hlen hd (skipped ++ rest) hun
  refine ⟨hload.noError, hvalue, ?_⟩
  intro hshort
  rw [hload.buffer_eq, hsent, hnone hshort, List.append_nil, List.length_append,
    Ports.wire_length]
  rfl

/-- **Which lists of scalars come back**: a list is saved without an error into every
buffer with room for it, and it is decoded to itself up to the end of its bytes
exactly if it has at most 65535 elements. -/
theorem scalar_list_round_trip_iff (h : Host) (k : Scalar) (l : List k.Val)
    (s d : Serializer) (rest : List UInt8) (hs : Ordered s.pBuffer)
    (hfit : s.pBuffer.pWrite + (2 + l.length * k.width) ≤ s.pBuffer.size.toNat)
    (hd : Ordered d.pBuffer) (hmode : d.changeByteOrder = s.changeByteOrder)
    (hun : d.pBuffer.unread =
      written s.pBuffer ((Ty.list (.scalar k)).put h l s).pBuffer ++ rest) :
    ((Ty.list (.scalar k)).put h l s).iError = 0 ∧
      ((Ty.scalar k).DecodesBack h l d ∧
          ((Ty.list (.scalar k)).get h d ([] : List k.Val)).1.pBuffer.pRead =
            d.pBuffer.pRead +
              (written s.pBuffer ((Ty.list (.scalar k)).put h l s).pBuffer).length ↔
        l.length ≤ 65535) := by
  obtain ⟨herr, hwritten⟩ := scalarList_saved h k l hs hfit
  rw [hwritten, ← hmode] at hun ⊢
  obtain ⟨hload, hvalue, hend⟩ := scalarList_decoded h k l hd rest hun
  refine ⟨herr, ?_⟩
  constructor
  · rintro ⟨⟨-, hsame⟩, -⟩
    have hcount := congrArg List.length (hvalue.symm.trans hsame)
    rw [List.length_take] at hcount
    omega
  · intro hshort
    have hall : l.take (l.length % 2 ^ 16) = l :=
      List.take_of_length_le (by omega)
    exact ⟨⟨hload, hvalue.trans hall⟩, hend hshort⟩

/-- Two numbers. -/
theorem scalar_list_round_trip_iff_two_numbers :
    (Ty.scalar .uInt16).DecodesBack .x86_64 ([1, 2] : List UInt16)
      (.new ⟨[0, 2, 0, 1, 0, 2], 6, 0, 6⟩ true) :=
  ((scalar_list_round_trip_iff .x86_64 .uInt16 [1, 2]
    (.new (.ofData (List.replicate 6 0) 6 0) true) (.new ⟨[0, 2, 0, 1, 0, 2], 6, 0, 6⟩ true) []
    ⟨by decide, by decide, by decide⟩ (by decide) ⟨by decide, by decide, by decide⟩ rfl
    (by decide)).2.mpr (by decide)).1

/-- **A list of 65536 elements comes back empty**: its count is sent as 0. -/
theorem list_count_truncated :
    ¬ ∀ (h : Host) (k : Scalar) (l : List k.Val) (s d : Serializer), Ordered s.pBuffer →
      s.pBuffer.pWrite + (2 + l.length * k.width) ≤ s.pBuffer.size.toNat →
      Ordered d.pBuffer → d.changeByteOrder = s.changeByteOrder →
      d.pBuffer.unread = written s.pBuffer ((Ty.list (.scalar k)).put h l s).pBuffer →
      ((Ty.list (.scalar k)).put h l s).iError = 0 → (Ty.scalar k).DecodesBack h l d := by
  intro hall
  obtain ⟨l, hl⟩ : ∃ l : List UInt8, l = List.replicate 65536 0 := ⟨_, rfl⟩
  have hlen : l.length = 65536 := by
    rw [hl]
    exact List.length_replicate
  obtain ⟨m, hm⟩ : ∃ m : List UInt8, m = List.replicate 65538 0 := ⟨_, rfl⟩
  have hmem : m.length = 65538 := by
    rw [hm]
    exact List.length_replicate
  have hs : Ordered (Serializer.new (.ofData m 65538 0) true).pBuffer :=
    ⟨Nat.le_refl _, Nat.zero_le _, hmem.ge⟩
  have hfit : 0 + (2 + l.length * Scalar.byte.width) ≤ (65538 : UInt32).toNat := by
    rw [hlen]
    decide
  obtain ⟨herr, hwritten⟩ := scalarList_saved .x86_64 .byte l hs hfit
  have hsent : (Ty.list (.scalar .byte)).sent .x86_64 true l = [0, 0] := by
    rw [scalarList_sent, hlen]
    rfl
  have hd : Ordered (Serializer.new ⟨[0, 0], 2, 0, 2⟩ true).pBuffer :=
    ⟨by decide, by decide, by decide⟩
  obtain ⟨-, hback⟩ := hall .x86_64 .byte l (.new (.ofData m 65538 0) true)
    (.new ⟨[0, 0], 2, 0, 2⟩ true) hs hfit hd rfl (hsent.symm.trans hwritten.symm) herr
  have hvalue := (scalarList_decoded .x86_64 .byte l hd []
    (hsent.symm.trans (List.append_nil _).symm)).2.1
  have hcount := congrArg List.length (hvalue.symm.trans hback)
  rw [List.length_take, hlen] at hcount
  exact absurd hcount (by decide)

end MyGenSvr.Ports
