import MyGenSvr.Ports.LoadErrors

/-!
# The elements of a decoded list

The loading loop of `List` runs as often as the count in the input says and
appends its local after every extraction.  It does not look at the error code in
between, as `SERIAL_ENTRY` does, so a count that announces more elements than
there are appends copies of whatever the local holds.

`Ty.skip` is the wire grammar: what one complete element takes off the bytes.  An
extraction takes the same off them, but for an empty string, whose terminator it
leaves there: from then on it lags behind the grammar.  Scalars and strings are found
all the same, the count of a list is not.

## Main results

* `Ty.follows`, `Ty.lags` — an element that is there is extracted.
* `decoded_elements_iff` — when a list holds decoded elements only.
-/

namespace MyGenSvr.Ports

open MyGenSvr.Verified.Buffer

/-! ## Complete elements -/

/-- Several elements one behind the other. -/
def skipMany (skip : List UInt8 → Option (List UInt8)) : Nat → List UInt8 → Option (List UInt8)
  | 0, bytes => some bytes
  | n + 1, bytes => (skip bytes).bind (skipMany skip n)

/-- The element count in front of the elements of a list. -/
def wireCount (h : Host) (c : Bool) (bytes : List UInt8) : UInt16 :=
  Scalar.uInt16.ofBits (Scalar.uInt16.convert h c
    (h.endian.value (bytes.take Scalar.uInt16.width)))

mutual
/-- What is left behind one complete element, if there is one whose strings have lengths
that are admitted. -/
def Ty.skip (h : Host) (c : Bool) (admits : Nat → Bool) : Ty → List UInt8 → Option (List UInt8)
  | .scalar k, bytes => if k.width ≤ bytes.length then some (bytes.drop k.width) else none
  | .string, bytes =>
      if (0 : UInt8) ∈ bytes ∧ admits (strlen bytes) then some (bytes.drop (strlen bytes + 1))
      else none
  | .archive fs, bytes => fs.skip h c admits bytes
  | .list t, bytes =>
      if Scalar.uInt16.width ≤ bytes.length then
        skipMany (t.skip h c admits) (wireCount h c bytes).toNat
          (bytes.drop Scalar.uInt16.width)
      else none

def Fields.skip (h : Host) (c : Bool) (admits : Nat → Bool) :
    Fields → List UInt8 → Option (List UInt8)
  | .nil, bytes => some bytes
  | .cons t fs, bytes => (t.skip h c admits bytes).bind (fs.skip h c admits)
end

/-- The wire admits strings of any length. -/
def anyLength (_ : Nat) : Bool := true

/-- A string that is not empty and, with its terminator, no longer than an `int`. -/
def properLength (n : Nat) : Bool := decide (0 < n ∧ n + 1 < 2 ^ 31)

/-- The bytes begin with `n` complete elements. -/
def Ty.Present (h : Host) (c : Bool) (admits : Nat → Bool) (t : Ty) (n : Nat)
    (bytes : List UInt8) : Prop :=
  (skipMany (t.skip h c admits) n bytes).isSome

instance (h : Host) (c : Bool) (admits : Nat → Bool) (t : Ty) (n : Nat) (bytes : List UInt8) :
    Decidable (t.Present h c admits n bytes) :=
  inferInstanceAs (Decidable ((skipMany (t.skip h c admits) n bytes).isSome = true))

/-- The bytes hold no count, or as many complete elements behind it as it announces. -/
def Ty.Announced (h : Host) (c : Bool) (admits : Nat → Bool) (t : Ty) (bytes : List UInt8) :
    Prop :=
  Scalar.uInt16.width ≤ bytes.length →
    t.Present h c admits (wireCount h c bytes).toNat (bytes.drop Scalar.uInt16.width)

/-! ## The extractions of the loop -/

/-- The element extractions of a list. -/
def Ty.extractions (h : Host) (t : Ty) (s : Serializer) : List (Serializer × t.Val) :=
  match s.pBuffer.readCount h s.changeByteOrder with
  | some (size, b) => loadResults (t.get h) size.toNat (s.ok b) (t.fresh h)
  | none => []

/-- A load appends the values of the extractions that ended with error code 0, in
their order and nothing else, and no more of them than there are complete
elements behind the count. -/
def DecodedOnly (h : Host) (t : Ty) (s : Serializer) (v : List t.Val) : Prop :=
  ∃ appended : List t.Val, ((Ty.list t).get h s v).2 = v ++ appended ∧
    appended = ((t.extractions h s).filter fun r => r.1.iError = 0).map Prod.snd ∧
    t.Present h s.changeByteOrder anyLength appended.length
      (s.pBuffer.unread.drop Scalar.uInt16.width)

theorem loadResults_length {α : Type} (get : Serializer → α → Serializer × α) (n : Nat) :
    ∀ (s : Serializer) (v : α), (loadResults get n s v).length = n := by
  induction n with
  | zero =>
      intro s v
      rfl
  | succ n ih =>
      intro s v
      simp [loadResults, ih]

/-- **Every iteration appends**, whatever became of its extraction. -/
theorem get_list_appends (h : Host) (t : Ty) (s : Serializer) (v : (Ty.list t).Val) :
    ((Ty.list t).get h s v).2 = List.append v ((t.extractions h s).map Prod.snd) := by
  rw [Ty.get_list_eq, Ty.extractions]
  cases s.pBuffer.readCount h s.changeByteOrder with
  | none => exact (List.append_nil _).symm
  | some r => exact loadLoop_results (t.get h) r.1.toNat (s.ok r.2) (t.fresh h) v

/-- The error codes of the extractions, by the pass that moves the cursor without
the values. -/
theorem loadResults_ok {α : Type} {get : Serializer → α → Serializer × α}
    {drain : Draining → Draining} (hget : ∀ s v, (get s v).1.draining = drain s.draining)
    (n : Nat) :
    ∀ (s : Serializer) (v : α), (∀ r ∈ loadResults get n s v, r.1.iError = 0) ↔
      ∀ i < n, (Nat.iterate drain (i + 1) s.draining).ok = true := by
  induction n with
  | zero =>
      intro s v
      simp [loadResults]
  | succ n ih =>
      intro s v
      rw [Nat.forall_lt_succ_left, loadResults, List.forall_mem_cons, ih, hget, ← draining_ok,
        hget]
      rfl

/-- The count cannot be read, or every announced extraction ends with error code 0
and the bytes behind the count hold as many complete elements. -/
def ElementsThere (h : Host) (t : Ty) (s : Serializer) : Prop :=
  ∀ size b, s.pBuffer.readCount h s.changeByteOrder = some (size, b) →
    (∀ i < size.toNat,
      (Nat.iterate (t.drain h) (i + 1) ⟨b, s.changeByteOrder, true⟩).ok = true) ∧
    t.Present h s.changeByteOrder anyLength size.toNat
      (s.pBuffer.unread.drop Scalar.uInt16.width)

theorem extractions_some {h : Host} {t : Ty} {s : Serializer} {size : UInt16}
    {b : DataBuffer} (hread : s.pBuffer.readCount h s.changeByteOrder = some (size, b)) :
    (t.extractions h s).length = size.toNat ∧
      ((∀ r ∈ t.extractions h s, r.1.iError = 0) ↔
        ∀ i < size.toNat,
          (Nat.iterate (t.drain h) (i + 1) ⟨b, s.changeByteOrder, true⟩).ok = true) := by
  have heq : t.extractions h s =
      loadResults (t.get h) size.toNat (s.ok b) (t.fresh h) := by
    rw [Ty.extractions, hread]
  rw [heq]
  exact ⟨loadResults_length _ _ _ _,
    loadResults_ok (Ty.get_draining h t) size.toNat (s.ok b) (t.fresh h)⟩

theorem extractions_none {h : Host} {t : Ty} {s : Serializer}
    (hread : s.pBuffer.readCount h s.changeByteOrder = none) : t.extractions h s = [] := by
  rw [Ty.extractions, hread]

/-- A list of results is its successes exactly if all succeed. -/
theorem map_filter_eq_iff {α : Type} (results : List (Serializer × α)) :
    results.map Prod.snd = (results.filter fun r => r.1.iError = 0).map Prod.snd ↔
      ∀ r ∈ results, r.1.iError = 0 := by
  constructor
  · intro heq r hr
    have hlen := congrArg List.length heq
    rw [List.length_map, List.length_map] at hlen
    have hall := List.length_filter_eq_length_iff.mp hlen.symm r hr
    exact of_decide_eq_true hall
  · intro hall
    rw [List.filter_eq_self.mpr fun r hr => decide_eq_true (hall r hr)]

/-- A load appends decoded elements only, exactly when the count announces no more than
there are and every extraction of one succeeds. -/
theorem decodedOnly_iff_there (h : Host) (t : Ty) (s : Serializer) (v : List t.Val) :
    DecodedOnly h t s v ↔ ElementsThere h t s := by
  have happends := get_list_appends h t s v
  constructor
  · rintro ⟨appended, hvalue, hfilter, hpresent⟩ size b hread
    obtain ⟨hlen, hcodes⟩ := @extractions_some h t s size b hread
    have hall : appended = (t.extractions h s).map Prod.snd :=
      List.append_cancel_left (hvalue.symm.trans happends)
    have hsize : appended.length = size.toNat := by rw [hall, List.length_map, hlen]
    exact ⟨hcodes.mp ((map_filter_eq_iff _).mp (hall.symm.trans hfilter)), hsize ▸ hpresent⟩
  · intro hthere
    refine ⟨_, happends, ?_, ?_⟩
    · apply (map_filter_eq_iff _).mpr
      cases hread : s.pBuffer.readCount h s.changeByteOrder with
      | none =>
          rw [extractions_none hread]
          exact fun r hr => absurd hr List.not_mem_nil
      | some r => exact (extractions_some hread).2.mpr (hthere r.1 r.2 hread).1
    · rw [List.length_map]
      cases hread : s.pBuffer.readCount h s.changeByteOrder with
      | none =>
          rw [extractions_none hread]
          rfl
      | some r =>
          rw [(extractions_some hread).1]
          exact (hthere r.1 r.2 hread).2

/-! ## Elements that are there are extracted -/

/-- The count of a list, by the unread bytes. -/
theorem readCount_eq (h : Host) (c : Bool) {b : DataBuffer} (hb : Ordered b) :
    b.readCount h c =
      if Scalar.uInt16.width ≤ b.unread.length then
        some (wireCount h c b.unread, { b with pRead := b.pRead + Scalar.uInt16.width })
      else none := by
  rw [DataBuffer.readCount, read_eq hb, width_toNat]
  by_cases hlen : Scalar.uInt16.width ≤ b.unread.length
  · rw [if_pos hlen, if_pos hlen]
    rfl
  · rw [if_neg hlen, if_neg hlen]
    rfl

/-- In a relation between the buffer and the bytes that the grammar has left, the guarded
pass comes through wherever the grammar does. -/
def KeepsPace (R : DataBuffer → List UInt8 → Prop) (parse : DataBuffer → Option DataBuffer)
    (skip : List UInt8 → Option (List UInt8)) : Prop :=
  ∀ b bytes rest, R b bytes → skip bytes = some rest → ∃ b', parse b = some b' ∧ R b' rest

section KeepsPace

variable {R : DataBuffer → List UInt8 → Prop} {parse parse' : DataBuffer → Option DataBuffer}
  {skip skip' : List UInt8 → Option (List UInt8)}

theorem KeepsPace.bind (hone : KeepsPace R parse skip) (htwo : KeepsPace R parse' skip') :
    KeepsPace R (fun b => (parse b).bind parse') (fun bytes => (skip bytes).bind skip') := by
  intro b bytes rest hb hskip
  obtain ⟨mid, hmid, hrest⟩ := Option.bind_eq_some_iff.mp hskip
  obtain ⟨b₁, hparse, hb₁⟩ := hone b bytes mid hb hmid
  obtain ⟨b', hparse', hb'⟩ := htwo b₁ mid rest hb₁ hrest
  refine ⟨b', ?_, hb'⟩
  show (parse b).bind parse' = some b'
  rw [hparse, Option.bind_some, hparse']

theorem KeepsPace.iterate (hone : KeepsPace R parse skip) (n : Nat) :
    KeepsPace R (fun b => Nat.iterate (fun o => Option.bind o parse) n (some b))
      (skipMany skip n) := by
  induction n with
  | zero =>
      intro b bytes rest hb hskip
      exact ⟨b, rfl, Option.some.inj hskip ▸ hb⟩
  | succ n ih =>
      intro b bytes rest hb hskip
      rw [skipMany] at hskip
      obtain ⟨mid, hmid, hrest⟩ := Option.bind_eq_some_iff.mp hskip
      obtain ⟨b₁, hparse, hb₁⟩ := hone b bytes mid hb hmid
      obtain ⟨b', hiter, hb'⟩ := ih b₁ mid rest hb₁ hrest
      refine ⟨b', ?_, hb'⟩
      show Nat.iterate (fun o => Option.bind o parse) (n + 1) (some b) = some b'
      rw [Function.iterate_succ_apply, Option.bind_some, hparse]
      exact hiter

end KeepsPace

/-- A scalar is a move of the cursor by its width. -/
theorem skipScalar_eq {b : DataBuffer} (hb : Ordered b) (k : Scalar) :
    b.skipScalar k =
      if k.width ≤ b.unread.length then some { b with pRead := b.pRead + k.width } else none := by
  rw [DataBuffer.skipScalar, read_eq hb, width_toNat]
  by_cases hlen : k.width ≤ b.unread.length
  · rw [if_pos hlen, if_pos hlen]
    rfl
  · rw [if_neg hlen, if_neg hlen]
    rfl

/-- The length that is measured where a terminator is unread. -/
theorem lenToRead_of_mem {b : DataBuffer} (hb : Ordered b) (hnul : (0 : UInt8) ∈ b.unread)
    (hshort : strlen b.unread + 1 < 2 ^ 31) : b.lenToRead = strlen b.unread := by
  rw [DataBuffer.lenToRead, hb.getReadPtr_eq, strlen_append, if_pos hnul]
  exact toInt32_of_lt (by omega)

/-- A string that is not empty is a move of the cursor over its terminator. -/
theorem parse_string {h : Host} {c : Bool} {b : DataBuffer} (hb : Ordered b)
    (hnul : (0 : UInt8) ∈ b.unread) (hshort : strlen b.unread + 1 < 2 ^ 31) :
    Ty.string.parse h c b =
      if 0 < strlen b.unread then some { b with pRead := b.pRead + (strlen b.unread + 1) }
      else some b := by
  have hlt := strlen_lt_of_mem hnul
  have hlen := lenToRead_of_mem hb hnul hshort
  rw [Ty.parse]
  by_cases hpos : 0 < strlen b.unread
  · have hcast : toInt32 ((strlen b.unread : Int) + 1) = ((strlen b.unread + 1 : Nat) : Int) :=
      toInt32_of_lt hshort
    rw [if_pos (by rw [hlen]; omega), if_pos hpos, DataBuffer.skipString, hlen,
      if_neg (by rw [hb.getDataSize_toNat]; omega), hcast, moveReadPtr_eq hb,
      if_pos (by omega)]
  · rw [if_neg (by rw [hlen]; omega), if_neg hpos]

/-- The unread bytes are what the grammar has left. -/
def InStep (b : DataBuffer) (bytes : List UInt8) : Prop := Ordered b ∧ b.unread = bytes

theorem InStep.advance {b : DataBuffer} {bytes : List UInt8} (hb : InStep b bytes) {n : Nat}
    (hn : n ≤ bytes.length) : InStep { b with pRead := b.pRead + n } (bytes.drop n) := by
  obtain ⟨ho, rfl⟩ := hb
  exact ⟨ho.advance hn, unread_advance b n⟩

/-- No string is empty or too long, if there are any. -/
def Proper (admits : Nat → Bool) : Prop := ∀ n, admits n = true → 0 < n ∧ n + 1 < 2 ^ 31

mutual
/-- **Elements with proper strings** are extracted one behind the other. -/
theorem Ty.follows (h : Host) (c : Bool) {admits : Nat → Bool} (hproper : Proper admits) :
    ∀ t : Ty, KeepsPace InStep (t.parse h c) (t.skip h c admits)
  | .scalar k => by
      intro b bytes rest hb hskip
      rw [Ty.skip, Option.ite_none_right_eq_some, Option.some.injEq] at hskip
      obtain ⟨hlen, rfl⟩ := hskip
      refine ⟨_, ?_, hb.advance hlen⟩
      rw [Ty.parse, skipScalar_eq hb.1, hb.2, if_pos hlen]
  | .string => by
      intro b bytes rest hb hskip
      rw [Ty.skip, Option.ite_none_right_eq_some, Option.some.injEq] at hskip
      obtain ⟨⟨hnul, hadmits⟩, rfl⟩ := hskip
      obtain ⟨hpos, hshort⟩ := hproper _ hadmits
      refine ⟨_, ?_, hb.advance (strlen_lt_of_mem hnul)⟩
      obtain ⟨ho, rfl⟩ := hb
      rw [parse_string ho hnul hshort, if_pos hpos]
  | .archive fs => Fields.follows h c hproper fs
  | .list t => by
      intro b bytes rest hb hskip
      rw [Ty.skip, Option.ite_none_right_eq_some] at hskip
      obtain ⟨hlen, hskip⟩ := hskip
      obtain ⟨b', hiter, hb'⟩ :=
        (Ty.follows h c hproper t).iterate _ _ _ _ (hb.advance hlen) hskip
      refine ⟨b', ?_, hb'⟩
      obtain ⟨ho, rfl⟩ := hb
      rw [Ty.parse, readCount_eq h c ho, if_pos hlen]
      exact hiter

theorem Fields.follows (h : Host) (c : Bool) {admits : Nat → Bool} (hproper : Proper admits) :
    ∀ fs : Fields, KeepsPace InStep (fs.parse h c) (fs.skip h c admits)
  | .nil => fun b _ _ hb hskip => ⟨b, rfl, Option.some.inj hskip ▸ hb⟩
  | .cons t fs => (Ty.follows h c hproper t).bind (Fields.follows h c hproper fs)
end

/-- Every string that could be found in the bytes is short. -/
def Short (bytes : List UInt8) : Prop :=
  ∀ m, (0 : UInt8) ∈ bytes.drop m → strlen (bytes.drop m) + 1 < 2 ^ 31

/-- The grammar has no more left than is unread. -/
def Lagging (b : DataBuffer) (bytes : List UInt8) : Prop :=
  Ordered b ∧ Short b.unread ∧ bytes <:+ b.unread

section Lagging

variable {b : DataBuffer} {bytes : List UInt8}

theorem Short.drop (hs : Short bytes) (n : Nat) : Short (bytes.drop n) := by
  intro m hm
  rw [List.drop_drop] at hm ⊢
  exact hs _ hm

/-- The grammar moves on at least as far as the cursor does. -/
theorem Lagging.advance (hb : Lagging b bytes) {m n : Nat} (hm : m ≤ b.unread.length)
    (hmn : b.unread.length - bytes.length + n ≥ m) :
    Lagging { b with pRead := b.pRead + m } (bytes.drop n) := by
  obtain ⟨ho, hshort, hpart⟩ := hb
  have hle := hpart.length_le
  refine ⟨ho.advance hm, ?_, ?_⟩
  · rw [unread_advance]
    exact hshort.drop m
  · rw [unread_advance]
    refine List.suffix_of_suffix_length_le ((List.drop_suffix n bytes).trans hpart)
      (List.drop_suffix m b.unread) ?_
    rw [List.length_drop, List.length_drop]
    omega

end Lagging

mutual
/-- No list anywhere in the type. -/
def Ty.listFree : Ty → Bool
  | .scalar _ => true
  | .string => true
  | .archive fs => fs.listFree
  | .list _ => false

def Fields.listFree : Fields → Bool
  | .nil => true
  | .cons t fs => t.listFree && fs.listFree
end

mutual
/-- **Elements without lists** are found although the cursor lags behind. -/
theorem Ty.lags (h : Host) (c : Bool) : ∀ t : Ty, t.listFree = true →
    KeepsPace Lagging (t.parse h c) (t.skip h c anyLength)
  | .scalar k, _ => by
      intro b bytes rest hb hskip
      rw [Ty.skip, Option.ite_none_right_eq_some, Option.some.injEq] at hskip
      obtain ⟨hlen, rfl⟩ := hskip
      have hle := hb.2.2.length_le
      refine ⟨_, ?_, hb.advance (m := k.width) (by omega) (by omega)⟩
      rw [Ty.parse, skipScalar_eq hb.1, if_pos (by omega)]
  | .string, _ => by
      intro b bytes rest hb hskip
      rw [Ty.skip, Option.ite_none_right_eq_some, Option.some.injEq] at hskip
      obtain ⟨⟨hnul, -⟩, rfl⟩ := hskip
      obtain ⟨ahead, hahead⟩ := hb.2.2
      have hmem : (0 : UInt8) ∈ b.unread := hb.2.2.mem hnul
      have hshort : strlen b.unread + 1 < 2 ^ 31 := by
        have hall := hb.2.1 0
        rw [List.drop_zero] at hall
        exact hall hmem
      -- the first terminator that is unread is not behind the one of the grammar
      have hfirst : strlen b.unread ≤ ahead.length + strlen bytes := by
        rw [← hahead, strlen_append]
        split
        · next hbefore =>
            have hlt := strlen_lt_of_mem hbefore
            omega
        · exact le_rfl
      have hsum := congrArg List.length hahead
      rw [List.length_append] at hsum
      rw [parse_string hb.1 hmem hshort]
      by_cases hpos : 0 < strlen b.unread
      · rw [if_pos hpos]
        have hlt := strlen_lt_of_mem hmem
        exact ⟨_, rfl, hb.advance (by omega) (by omega)⟩
      · rw [if_neg hpos]
        exact ⟨b, rfl, hb.advance (m := 0) (Nat.zero_le _) (Nat.zero_le _)⟩
  | .archive fs, hfree => Fields.lags h c fs hfree
  | .list _, hfree => Bool.noConfusion hfree

theorem Fields.lags (h : Host) (c : Bool) : ∀ fs : Fields, fs.listFree = true →
    KeepsPace Lagging (fs.parse h c) (fs.skip h c anyLength)
  | .nil, _ => fun b _ _ hb hskip => ⟨b, rfl, Option.some.inj hskip ▸ hb⟩
  | .cons t fs, hfree => by
      rw [Fields.listFree, Bool.and_eq_true] at hfree
      exact (Ty.lags h c t hfree.1).bind (Fields.lags h c fs hfree.2)
end

mutual
/-- No string anywhere in the type. -/
def Ty.stringFree : Ty → Bool
  | .scalar _ => true
  | .string => false
  | .archive fs => fs.stringFree
  | .list t => t.stringFree

def Fields.stringFree : Fields → Bool
  | .nil => true
  | .cons t fs => t.stringFree && fs.stringFree
end

theorem skipMany_mono {skip skip' : List UInt8 → Option (List UInt8)}
    (hskip : ∀ bytes rest, skip bytes = some rest → skip' bytes = some rest) (n : Nat) :
    ∀ {bytes rest : List UInt8}, skipMany skip n bytes = some rest →
      skipMany skip' n bytes = some rest := by
  induction n with
  | zero => exact fun hrest => hrest
  | succ n ih =>
      intro bytes rest hrest
      obtain ⟨mid, hmid, hmany⟩ := Option.bind_eq_some_iff.mp hrest
      rw [skipMany, hskip bytes mid hmid]
      exact ih hmany

mutual
/-- The grammar that admits more strings accepts more. -/
theorem Ty.skip_mono (h : Host) (c : Bool) {admits admits' : Nat → Bool}
    (hadmits : ∀ n, admits n = true → admits' n = true) :
    ∀ t : Ty, ∀ bytes rest, t.skip h c admits bytes = some rest →
      t.skip h c admits' bytes = some rest
  | .scalar _ => fun _ _ hskip => hskip
  | .string => by
      intro bytes rest hskip
      rw [Ty.skip, Option.ite_none_right_eq_some] at hskip ⊢
      exact ⟨⟨hskip.1.1, hadmits _ hskip.1.2⟩, hskip.2⟩
  | .archive fs => Fields.skip_mono h c hadmits fs
  | .list t => by
      intro bytes rest hskip
      rw [Ty.skip, Option.ite_none_right_eq_some] at hskip ⊢
      exact ⟨hskip.1, skipMany_mono (Ty.skip_mono h c hadmits t) _ hskip.2⟩

theorem Fields.skip_mono (h : Host) (c : Bool) {admits admits' : Nat → Bool}
    (hadmits : ∀ n, admits n = true → admits' n = true) :
    ∀ fs : Fields, ∀ bytes rest, fs.skip h c admits bytes = some rest →
      fs.skip h c admits' bytes = some rest
  | .nil => fun _ _ hskip => hskip
  | .cons t fs => by
      intro bytes rest hskip
      obtain ⟨mid, hmid, hrest⟩ := Option.bind_eq_some_iff.mp hskip
      rw [Fields.skip, Ty.skip_mono h c hadmits t bytes mid hmid]
      exact Fields.skip_mono h c hadmits fs mid rest hrest
end

mutual
/-- Without strings it does not matter what lengths they may have. -/
theorem Ty.skip_stringFree (h : Host) (c : Bool) (admits admits' : Nat → Bool) :
    ∀ t : Ty, t.stringFree = true → t.skip h c admits = t.skip h c admits'
  | .scalar _, _ => rfl
  | .string, hfree => Bool.noConfusion hfree
  | .archive fs, hfree => Fields.skip_stringFree h c admits admits' fs hfree
  | .list t, hfree => by
      funext bytes
      rw [Ty.skip, Ty.skip, Ty.skip_stringFree h c admits admits' t hfree]

theorem Fields.skip_stringFree (h : Host) (c : Bool) (admits admits' : Nat → Bool) :
    ∀ fs : Fields, fs.stringFree = true → fs.skip h c admits = fs.skip h c admits'
  | .nil, _ => rfl
  | .cons t fs, hfree => by
      rw [Fields.stringFree, Bool.and_eq_true] at hfree
      funext bytes
      rw [Fields.skip, Fields.skip, Ty.skip_stringFree h c admits admits' t hfree.1,
        Fields.skip_stringFree h c admits admits' fs hfree.2]
end

/-- Where the guarded pass comes through, the pass that goes on after failures has
met none. -/
def DrainsAs (c : Bool) (drain : Draining → Draining)
    (parse : DataBuffer → Option DataBuffer) : Prop :=
  ∀ b b', parse b = some b' → drain ⟨b, c, true⟩ = ⟨b', c, true⟩

theorem DrainsAs.iterate {c : Bool} {drain : Draining → Draining}
    {parse : DataBuffer → Option DataBuffer} (hone : DrainsAs c drain parse) (n : Nat) :
    ∀ b b', Nat.iterate (fun o => Option.bind o parse) n (some b) = some b' →
      Nat.iterate drain n ⟨b, c, true⟩ = ⟨b', c, true⟩ := by
  induction n with
  | zero =>
      intro b b' hiter
      rw [Function.iterate_zero_apply, Option.some.inj hiter]
  | succ n ih =>
      intro b b' hiter
      rw [Function.iterate_succ_apply, Option.bind_some] at hiter
      cases hparse : parse b with
      | none =>
          rw [hparse, iterate_bind_none] at hiter
          exact absurd hiter (by simp)
      | some b₁ =>
          rw [hparse] at hiter
          rw [Function.iterate_succ_apply, hone b b₁ hparse, ih b₁ b' hiter]

mutual
theorem Ty.drainsAs (h : Host) (c : Bool) :
    ∀ t : Ty, DrainsAs c (t.drain h) (t.parse h c)
  | .scalar k => by
      intro b b' hparse
      rw [Ty.parse] at hparse
      rw [Ty.drain, hparse]
      rfl
  | .string => by
      intro b b' hparse
      rw [Ty.parse] at hparse
      rw [Ty.drain]
      by_cases hpos : b.lenToRead > 0
      · rw [if_pos hpos] at hparse
        rw [if_pos hpos, hparse]
        rfl
      · rw [if_neg hpos, Option.some.injEq] at hparse
        rw [if_neg hpos, hparse]
  | .archive fs => Fields.drainsAs h c fs
  | .list t => by
      intro b b' hparse
      rw [Ty.parse] at hparse
      rw [Ty.drain]
      cases hread : b.readCount h c with
      | none =>
          rw [hread] at hparse
          exact absurd hparse (by simp)
      | some r =>
          rw [hread] at hparse
          simp only
          exact (Ty.drainsAs h c t).iterate _ _ _ hparse

theorem Fields.drainsAs (h : Host) (c : Bool) :
    ∀ fs : Fields, DrainsAs c (fs.drain h) (fs.parse h c)
  | .nil => by
      intro b b' hparse
      rw [Fields.drain, Option.some.inj hparse]
  | .cons t fs => by
      intro b b' hparse
      rw [Fields.parse] at hparse
      obtain ⟨mid, hmid, hrest⟩ := Option.bind_eq_some_iff.mp hparse
      rw [Fields.drain, if_pos rfl, Ty.drainsAs h c t b mid hmid,
        Fields.drainsAs h c fs mid b' hrest]
end

/-! ## The theorem -/

theorem skipMany_le {skip : List UInt8 → Option (List UInt8)} {m n : Nat} (hle : m ≤ n) :
    ∀ {bytes : List UInt8}, (skipMany skip n bytes).isSome → (skipMany skip m bytes).isSome := by
  induction m generalizing n with
  | zero =>
      intro bytes _
      rfl
  | succ m ih =>
      intro bytes hn
      obtain ⟨n, rfl⟩ : ∃ k, n = k + 1 := ⟨n - 1, by omega⟩
      rw [skipMany] at hn ⊢
      cases hskip : skip bytes with
      | none =>
          rw [hskip] at hn
          exact absurd hn (by simp)
      | some rest =>
          rw [hskip, Option.bind_some] at hn
          exact ih (by omega) hn

section Theorem

variable {h : Host} {t : Ty} {s : Serializer}

/-- Where every announced element is extracted, the list holds decoded elements only. -/
theorem elementsThere_of_follows {R : DataBuffer → List UInt8 → Prop} {admits : Nat → Bool}
    (hs : Ordered s.pBuffer)
    (hpace : KeepsPace R (t.parse h s.changeByteOrder) (t.skip h s.changeByteOrder admits))
    (hstart : Scalar.uInt16.width ≤ s.pBuffer.unread.length →
      R { s.pBuffer with pRead := s.pBuffer.pRead + Scalar.uInt16.width }
        (s.pBuffer.unread.drop Scalar.uInt16.width))
    (hpresent : t.Announced h s.changeByteOrder admits s.pBuffer.unread)
    (hany : t.Announced h s.changeByteOrder anyLength s.pBuffer.unread) :
    ElementsThere h t s := by
  intro size b hread
  rw [readCount_eq h _ hs, Option.ite_none_right_eq_some] at hread
  obtain ⟨hlen, hread⟩ := hread
  obtain ⟨rfl, rfl⟩ := Prod.mk.inj (Option.some.inj hread)
  refine ⟨fun i hi => ?_, hany hlen⟩
  -- a run of elements that are there is a run of extractions that succeed
  have hfirst := skipMany_le (Nat.succ_le_of_lt hi) (hpresent hlen)
  obtain ⟨rest, hrest⟩ := Option.isSome_iff_exists.mp hfirst
  obtain ⟨b', hiter, -⟩ := hpace.iterate (i + 1) _ _ rest (hstart hlen) hrest
  rw [(Ty.drainsAs h s.changeByteOrder t).iterate (i + 1) _ _ hiter]

/-- A list with decoded elements only was announced as many as there are. -/
theorem announced_of_elementsThere (hs : Ordered s.pBuffer) (hthere : ElementsThere h t s) :
    t.Announced h s.changeByteOrder anyLength s.pBuffer.unread := by
  intro hlen
  exact (hthere _ _ ((readCount_eq h _ hs).trans (if_pos hlen))).2

theorem properLength_proper : Proper properLength := by
  intro n hn
  exact of_decide_eq_true hn

/-- Elements with proper strings are elements. -/
theorem announced_any {c : Bool} {bytes : List UInt8}
    (hproper : t.Announced h c properLength bytes) : t.Announced h c anyLength bytes := by
  intro hlen
  obtain ⟨rest, hrest⟩ := Option.isSome_iff_exists.mp (hproper hlen)
  exact Option.isSome_iff_exists.mpr
    ⟨rest, skipMany_mono (Ty.skip_mono h c (fun _ _ => rfl) t) _ hrest⟩

/-- Announced elements with proper strings are all extracted. -/
theorem elementsThere_of_proper (hs : Ordered s.pBuffer)
    (hproper : t.Announced h s.changeByteOrder properLength s.pBuffer.unread) :
    ElementsThere h t s :=
  elementsThere_of_follows hs (Ty.follows h s.changeByteOrder properLength_proper t)
    (fun hlen => InStep.advance ⟨hs, rfl⟩ hlen) hproper (announced_any hproper)

/-- Without lists, announced elements are all extracted. -/
theorem elementsThere_of_listFree (hs : Ordered s.pBuffer) (hfree : t.listFree = true)
    (hshort : Short s.pBuffer.unread)
    (hany : t.Announced h s.changeByteOrder anyLength s.pBuffer.unread) :
    ElementsThere h t s := by
  have hstart : Lagging s.pBuffer s.pBuffer.unread := ⟨hs, hshort, List.suffix_rfl⟩
  exact elementsThere_of_follows hs (Ty.lags h s.changeByteOrder t hfree)
    (fun hlen => hstart.advance hlen (by omega)) hany hany

/-- **Decoded elements only.** A list holds decoded elements only if its count announces
no more elements than the bytes behind it hold.  That is enough for elements without
strings, and for elements without lists where no string is too long for an `int`; for
all others it is where no string is empty. -/
theorem decoded_elements_iff (h : Host) (t : Ty) (s : Serializer) (hs : Ordered s.pBuffer)
    (v : List t.Val) :
    (t.stringFree = true →
      (DecodedOnly h t s v ↔
        t.Announced h s.changeByteOrder anyLength s.pBuffer.unread)) ∧
    (t.listFree = true → Short s.pBuffer.unread →
      (DecodedOnly h t s v ↔
        t.Announced h s.changeByteOrder anyLength s.pBuffer.unread)) ∧
    (DecodedOnly h t s v →
      t.Announced h s.changeByteOrder anyLength s.pBuffer.unread) ∧
    (t.Announced h s.changeByteOrder properLength s.pBuffer.unread →
      DecodedOnly h t s v) := by
  rw [decodedOnly_iff_there]
  have honly := announced_of_elementsThere (h := h) (t := t) hs
  refine ⟨fun hfree => ⟨honly, fun hany => ?_⟩,
    fun hfree hshort => ⟨honly, elementsThere_of_listFree hs hfree hshort⟩, honly,
    elementsThere_of_proper hs⟩
  have hskip := Ty.skip_stringFree h s.changeByteOrder anyLength properLength t hfree
  apply elementsThere_of_proper hs
  intro hlen
  have hpresent := hany hlen
  rw [Ty.Present, hskip] at hpresent
  exact hpresent

/-- Two lists of bytes are announced, `{7}` and `{}`, and both are there. -/
theorem decoded_elements_iff_two_lists :
    DecodedOnly .x86_64 (.list (.scalar .byte))
      (.new (.ofData [0, 2, 0, 1, 7, 0, 0] 7 7) true) ([] : List (List UInt8)) :=
  ((decoded_elements_iff .x86_64 (.list (.scalar .byte))
      (.new (.ofData [0, 2, 0, 1, 7, 0, 0] 7 7) true) (ofData_ordered (by decide)) []).1
    rfl).mpr fun _ => by decide

/-- Two bytes announced and one there. -/
def announcedTwo : Serializer := .new (.ofData [0, 2, 7] 3 3) true

/-- The byte that is there is appended again for the one that is not. -/
theorem announced_element_appended :
    ¬ DecodedOnly .x86_64 (.scalar .byte) announcedTwo ([] : List UInt8) := by
  intro hdecoded
  obtain ⟨appended, hvalue, hfilter, -⟩ : ∃ appended : List UInt8, _ := hdecoded
  have hboth : appended = ([7, 7] : List UInt8) := hvalue.symm.trans rfl
  have hone : appended = ([7] : List UInt8) := hfilter.trans rfl
  exact absurd (hboth.symm.trans hone) (by decide)

end Theorem

end MyGenSvr.Ports
