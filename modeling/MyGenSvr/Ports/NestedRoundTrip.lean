import MyGenSvr.Ports.NestedLists

/-!
# Round trip of nested lists

A save into a buffer that is too small can end with error code 0.  Here the writer
and the reader of a value are followed through such a save, piece by piece (`Sync`):
either both refuse the same pieces, and a list that gets its elements back by chance
does not get back its length, or the reader runs out of bytes at a count and fails
to the end (`Stuck`).

## Main results

* `Ty.follow` — the writer and the reader of a value in step.
* `nested_lists_round_trip_iff` — which values come back.
-/

namespace MyGenSvr.Ports

open MyGenSvr.Verified.Buffer

/-- A save that does not write past the end of the buffer, by the lengths of its pieces. -/
def Ty.Contained (t : Ty) (v : t.Val) (s : Serializer) : Prop :=
  (t.fill v s.filling).cursor ≤ s.pBuffer.size.toNat

/-- From `s` to `s'` bytes were appended, whatever was refused in between. -/
structure Extends (s s' : Serializer) : Prop where
  appends : Appends s.pBuffer s'.pBuffer (written s.pBuffer s'.pBuffer)
  mode_eq : s'.changeByteOrder = s.changeByteOrder

/-- From `s` to `s'` the write cursor moved on, and as long as it stayed in the buffer
bytes were appended. -/
structure Advances (s s' : Serializer) : Prop where
  size_eq : s'.pBuffer.size = s.pBuffer.size
  grows : s.pBuffer.pWrite ≤ s'.pBuffer.pWrite
  extending : Ordered s.pBuffer → s'.pBuffer.pWrite ≤ s.pBuffer.size.toNat → Extends s s'

/-- The reader `d` stands where the writer `s` stood: `bytes`, all that was written
from there on, are unread, and the buffer had room for them. -/
structure Aligned (s d : Serializer) (bytes : List UInt8) : Prop where
  writer : Ordered s.pBuffer
  ordered : Ordered d.pBuffer
  mode_eq : d.changeByteOrder = s.changeByteOrder
  unread_eq : d.pBuffer.unread = bytes
  room : s.pBuffer.pWrite + bytes.length ≤ s.pBuffer.size.toNat

/-- The same, with an error pending in both or in neither. -/
structure Sync (s d : Serializer) (bytes : List UInt8) : Prop extends Aligned s d bytes where
  ok_iff : d.iError = 0 ↔ s.iError = 0

/-- A reader with an error pending and too few bytes for a count. -/
structure Stuck (d : Serializer) : Prop where
  ordered : Ordered d.pBuffer
  failed : d.iError ≠ 0
  few : d.pBuffer.unread.length < 2

/-- An extraction that leaves a stuck reader stuck. -/
def Steady {α : Type} (get : Serializer → α → Serializer × α) : Prop :=
  ∀ d v, Stuck d → Stuck (get d v).1

/-- The writer went from `s` to `s'` with `x`, and the reader, whose variable held `v`,
got `w` in step with it.  If an error is pending now, the next value of the type is
`blocked`; if none is, though a piece was refused on the way or `x` was itself blocked,
then `w` is not `x`. -/
structure Follows {α : Type} (blocked : Serializer → α → Prop) (extent : α → Nat)
    (s s' d' : Serializer) (v x w : α) (future : List UInt8) : Prop where
  sync : Sync s' d' future
  blocked_of_error : s'.iError ≠ 0 → blocked s' w
  differs : s'.iError = 0 →
    s'.pBuffer.pWrite ≠ s.pBuffer.pWrite + extent x ∨ (s.iError ≠ 0 ∧ blocked s v) → w ≠ x

/-- What keeps the next value of the type from coming back, once an error is pending:
no room for the scalar, the guard of the archive, or elements in the list already. -/
def Ty.Blocked : (t : Ty) → Serializer → t.Val → Prop
  | .scalar k, s, _ => s.pBuffer.size.toNat < s.pBuffer.pWrite + k.width
  | .string, _, _ => True
  | .archive _, _, _ => True
  | .list _, _, v => v ≠ ([] : List _)

/-! ## Writing -/

section Writing

variable {s s' s'' : Serializer}

theorem Saved.extends {bytes : List UInt8} (h : Saved s s' bytes) (ho : Ordered s.pBuffer) :
    Extends s s' ∧ written s.pBuffer s'.pBuffer = bytes := by
  have hbytes := h.appends.written_eq ho
  refine ⟨⟨?_, h.mode_eq⟩, hbytes⟩
  rw [hbytes]
  exact h.appends

theorem written_self (b : DataBuffer) : written b b = [] := by
  rw [written, Nat.sub_self, List.take_zero]

/-- A step that leaves the buffer alone appends nothing. -/
theorem Extends.of_buffer_eq (ho : Ordered s.pBuffer) (hbuf : s'.pBuffer = s.pBuffer)
    (hmode : s'.changeByteOrder = s.changeByteOrder) : Extends s s' := by
  refine ⟨?_, hmode⟩
  rw [hbuf, written_self]
  exact Appends.refl ho

theorem Extends.trans (h : Extends s s') (h' : Extends s' s'') (ho : Ordered s.pBuffer) :
    Extends s s'' ∧
      written s.pBuffer s''.pBuffer =
        written s.pBuffer s'.pBuffer ++ written s'.pBuffer s''.pBuffer := by
  have happ := h.appends.trans h'.appends ho
  have hbytes := happ.written_eq ho
  refine ⟨⟨?_, h'.mode_eq.trans h.mode_eq⟩, hbytes⟩
  rw [hbytes]
  exact happ

/-- What a write that is accepted does to the cursor. -/
theorem write_moves {b b' : DataBuffer} {src : List UInt8} {length : UInt32}
    (hwrite : b.write src length = some b') :
    b'.size = b.size ∧ b'.pWrite = b.pWrite + length.toNat := by
  unfold DataBuffer.write at hwrite
  split at hwrite
  · cases hwrite
    exact ⟨rfl, rfl⟩
  · cases hwrite

/-- **A scalar is written if it fits**, and refused if not, unless it is written past the
end. -/
theorem putScalar_cases (h : Host) (k : Scalar) (ho : Ordered s.pBuffer) (v : k.Val)
    (hstays : (s.putScalar h k v).pBuffer.pWrite ≤ s.pBuffer.size.toNat) :
    (s.pBuffer.pWrite + k.width ≤ s.pBuffer.size.toNat ∧
      Saved s (s.putScalar h k v) (k.wire h s.changeByteOrder v)) ∨
    (s.pBuffer.size.toNat < s.pBuffer.pWrite + k.width ∧
      s.putScalar h k v = s.setError (-1)) := by
  by_cases hfit : s.pBuffer.pWrite + k.width ≤ s.pBuffer.size.toNat
  · exact Or.inl ⟨hfit, putScalar_saved h k ho v hfit⟩
  · have hwidth := width_toNat k
    rw [putScalar_settle] at hstays ⊢
    cases hwrite : s.pBuffer.write (k.wire h s.changeByteOrder v) (UInt32.ofNat k.width) with
    | none => exact Or.inr ⟨Nat.not_le.mp hfit, rfl⟩
    | some b =>
        obtain ⟨-, hmoved⟩ := write_moves hwrite
        rw [hwrite] at hstays
        rw [← hwidth, ← hmoved] at hfit
        exact absurd hstays hfit

theorem Advances.of_buffer_eq (hbuf : s'.pBuffer = s.pBuffer)
    (hmode : s'.changeByteOrder = s.changeByteOrder) : Advances s s' where
  size_eq := by rw [hbuf]
  grows := by rw [hbuf]
  extending := fun ho _ => Extends.of_buffer_eq ho hbuf hmode

/-- Two parts of a save that keeps to its buffer: each does, and the bytes of the one are
followed by those of the other. -/
theorem Advances.split (h : Advances s s') (h' : Advances s' s'') (ho : Ordered s.pBuffer)
    (hstays : s''.pBuffer.pWrite ≤ s.pBuffer.size.toNat) :
    s'.pBuffer.pWrite ≤ s.pBuffer.size.toNat ∧ s''.pBuffer.pWrite ≤ s'.pBuffer.size.toNat ∧
      Extends s s'' ∧
      written s.pBuffer s''.pBuffer =
        written s.pBuffer s'.pBuffer ++ written s'.pBuffer s''.pBuffer := by
  have hstays₁ := h'.grows.trans hstays
  have hhead := h.extending ho hstays₁
  rw [← h.size_eq] at hstays
  have hrest := h'.extending hhead.appends.ordered hstays
  exact ⟨hstays₁, hstays, hhead.trans hrest ho⟩

theorem Advances.trans (h : Advances s s') (h' : Advances s' s'') : Advances s s'' where
  size_eq := h'.size_eq.trans h.size_eq
  grows := h.grows.trans h'.grows
  extending := fun ho hstays => (h.split h' ho hstays).2.2.1

theorem putScalar_advances (h : Host) (k : Scalar) (v : k.Val) (s : Serializer) :
    Advances s (s.putScalar h k v) := by
  have hcursor : (s.putScalar h k v).pBuffer.size = s.pBuffer.size ∧
      s.pBuffer.pWrite ≤ (s.putScalar h k v).pBuffer.pWrite := by
    rw [putScalar_settle]
    cases hwrite : s.pBuffer.write (k.wire h s.changeByteOrder v) (UInt32.ofNat k.width) with
    | none => exact ⟨rfl, Nat.le_refl _⟩
    | some b =>
        obtain ⟨hsize, hmoved⟩ := write_moves hwrite
        exact ⟨hsize, hmoved.ge.trans' (Nat.le_add_right _ _)⟩
  refine ⟨hcursor.1, hcursor.2, ?_⟩
  intro ho hstays
  rcases putScalar_cases h k ho v hstays with ⟨-, hsaved⟩ | ⟨-, hrefused⟩
  · exact (hsaved.extends ho).1
  · rw [hrefused]
    exact Extends.of_buffer_eq ho rfl rfl

theorem foldl_advances {α : Type} {put : α → Serializer → Serializer} {xs : List α}
    (hput : ∀ x ∈ xs, ∀ s, Advances s (put x s)) :
    ∀ s, Advances s (List.foldl (fun s x => put x s) s xs) := by
  induction xs with
  | nil =>
      intro s
      exact Advances.of_buffer_eq rfl rfl
  | cons x xs ih =>
      intro s
      have hrest := ih (fun y hy => hput y (List.mem_cons_of_mem _ hy)) (put x s)
      exact (hput x List.mem_cons_self s).trans hrest

mutual
/-- **A save only appends**, whatever is refused. -/
theorem Ty.put_advances (h : Host) :
    ∀ (t : Ty) (v : t.Val) (s : Serializer), t.scalarLeaves = true →
      Advances s (t.put h v s)
  | .scalar k, v, s, _ => putScalar_advances h k v s
  | .string, _, _, hleaves => absurd hleaves Bool.false_ne_true
  | .archive fs, v, s, hleaves => Fields.save_advances h fs v s hleaves
  | .list t, v, s, hleaves => by
      have hcount := putScalar_advances h .uInt16 (UInt16.ofNat (List.length v)) s
      simp only [Ty.put]
      split
      · have hput : ∀ x s', Advances s' (t.put h x s') :=
          fun x s' => Ty.put_advances h t x s' hleaves
        exact hcount.trans (@foldl_advances t.Val _ v (fun x _ => hput x) _)
      · exact hcount

theorem Fields.save_advances (h : Host) :
    ∀ (fs : Fields) (v : fs.Val) (s : Serializer), fs.scalarLeaves = true →
      Advances s (fs.save h v s)
  | .nil, _, _, _ => Advances.of_buffer_eq rfl rfl
  | .cons t fs, (v, vs), s, hleaves => by
      rw [Fields.scalarLeaves, Bool.and_eq_true] at hleaves
      by_cases herr : s.iError = 0
      · have hhead := Ty.put_advances h t v s hleaves.1
        have hrest := Fields.save_advances h fs vs (t.put h v s) hleaves.2
        rw [Fields.save, entryPut_of_ok _ herr]
        exact hhead.trans hrest
      · rw [Fields.save_of_error h (.cons t fs) (v, vs) s herr]
        exact Advances.of_buffer_eq rfl rfl
end

end Writing

/-! ## Reading in step -/

section InStep

variable {s s' d d' : Serializer}

/-- Behind a piece that was written and read. -/
theorem Aligned.next {bytes future : List UInt8} (h : Aligned s d (bytes ++ future))
    (hsaved : Saved s s' bytes) (hloaded : Loaded d d' bytes.length) : Sync s' d' future := by
  obtain ⟨hord, hrest⟩ := hloaded.rest h.ordered h.unread_eq
  have hroom := h.room
  rw [List.length_append] at hroom
  refine ⟨⟨hsaved.appends.ordered, hord, ?_, hrest, ?_⟩,
    iff_of_true hloaded.noError hsaved.noError⟩
  · rw [hloaded.mode_eq, hsaved.mode_eq, h.mode_eq]
  · rw [hsaved.appends.write_eq, hsaved.appends.size_eq]
    omega

/-- Where there is no room for a piece, there are no bytes for it. -/
theorem Aligned.unread_lt {bytes : List UInt8} {n : Nat} (h : Aligned s d bytes)
    (hfull : s.pBuffer.size.toNat < s.pBuffer.pWrite + n) : d.pBuffer.unread.length < n := by
  have hroom := h.room
  rw [h.unread_eq]
  omega

/-- A count that is not there ends the extraction of a `List`. -/
theorem get_list_short (h : Host) (t : Ty) (ho : Ordered d.pBuffer)
    (hfew : d.pBuffer.unread.length < 2) (v : List t.Val) :
    (Ty.list t).get h d v = (d.setError (-1), v) := by
  have hnone : d.pBuffer.readCount h d.changeByteOrder = none := by
    have hshort : ¬ Scalar.uInt16.width ≤ d.pBuffer.unread.length := Nat.not_le.mpr hfew
    rw [DataBuffer.readCount, read_eq ho, width_toNat, if_neg hshort]
    rfl
  simp only [Ty.get, getCount_none hnone]
  rfl

theorem list_steady (h : Host) (t : Ty) : Steady ((Ty.list t).get h) := by
  intro d v hd
  rw [get_list_short h t hd.ordered hd.few v]
  exact ⟨hd.ordered, show (-1 : Int) ≠ 0 by decide, hd.few⟩

theorem load_steady (h : Host) (fs : Fields) : Steady (fs.load h) := by
  intro d v hd
  rw [Fields.load_of_error h fs v d hd.failed]
  exact hd

theorem Steady.loadLoop {α : Type} {get : Serializer → α → Serializer × α}
    (hget : Steady get) (n : Nat) :
    ∀ (d : Serializer) (v : α) (acc : List α), Stuck d → Stuck (loadLoop get n d v acc).1 := by
  induction n with
  | zero =>
      intro d v acc hd
      exact hd
  | succ n ih =>
      intro d v acc hd
      exact ih _ _ _ (hget d v hd)

/-- A value whose reader keeps in step with its writer, or gets stuck for good. -/
def Tracks {α : Type} (put : α → Serializer → Serializer)
    (get : Serializer → α → Serializer × α) (blocked : Serializer → α → Prop)
    (extent : α → Nat) (x : α) : Prop :=
  ∀ (s d : Serializer) (v : α) (future : List UInt8),
    (put x s).pBuffer.pWrite ≤ s.pBuffer.size.toNat →
    Sync s d (written s.pBuffer (put x s).pBuffer ++ future) →
    (Steady get ∧ Stuck (get d v).1) ∨
      Follows blocked extent s (put x s) (get d v).1 v x (get d v).2 future

/-- A scalar is refused on both sides or on neither. -/
theorem scalar_tracks (h : Host) (k : Scalar) (x : k.Val) :
    Tracks (fun v s => s.putScalar h k v) (Serializer.getScalar h k)
      (fun s _ => s.pBuffer.size.toNat < s.pBuffer.pWrite + k.width) (fun _ => k.width) x := by
  intro s d v future hstays hsync
  apply Or.inr
  have ho := hsync.writer
  rcases putScalar_cases h k ho x hstays with ⟨hfit, hsaved⟩ | ⟨hfull, hrefused⟩
  · have hbytes := (hsaved.extends ho).2
    rw [hbytes] at hsync
    have hun := hsync.unread_eq
    rw [← hsync.mode_eq] at hun
    obtain ⟨hload, -⟩ := scalar_loaded h k hsync.ordered v x future hun
    rw [hsync.mode_eq] at hload
    have hnext := hsync.toAligned.next hsaved hload
    refine ⟨hnext, fun herr => absurd hsaved.noError herr, ?_⟩
    rintro - (hmoved | ⟨-, hblocked⟩)
    · exact absurd (by rw [hsaved.appends.write_eq, Ports.wire_length]) hmoved
    · exact absurd hfit (Nat.not_le.mpr hblocked)
  · have hbytes : written s.pBuffer (s.putScalar h k x).pBuffer = [] := by
      rw [hrefused]
      exact written_self s.pBuffer
    dsimp only at hsync
    rw [hbytes, List.nil_append] at hsync
    have hfew := hsync.toAligned.unread_lt hfull
    have hget := getScalar_of_lt h k hsync.ordered v hfew
    have hfailed : ¬ (-1 : Int) = 0 := by decide
    rw [hget]
    dsimp only
    rw [hrefused]
    exact ⟨⟨⟨ho, hsync.ordered, hsync.mode_eq, hsync.unread_eq, hsync.room⟩,
      iff_of_false hfailed hfailed⟩, fun _ => hfull, fun herr => absurd herr hfailed⟩

/-- **The loops in step.**  As long as the reader is not stuck it gets as many values as
were written; and if the loop ends without an error, though a piece of it was refused or
an error was pending before it, they are not the values written. -/
theorem Tracks.loop {α : Type} {put : α → Serializer → Serializer}
    {get : Serializer → α → Serializer × α} {blocked : Serializer → α → Prop}
    {extent : α → Nat} {xs : List α}
    (hput : ∀ x ∈ xs, ∀ s, Advances s (put x s))
    (htracks : ∀ x ∈ xs, Tracks put get blocked extent x) :
    ∀ (s d : Serializer) (v : α) (acc : List α) (future : List UInt8),
      (s.iError ≠ 0 → blocked s v) →
      (List.foldl (fun s x => put x s) s xs).pBuffer.pWrite ≤ s.pBuffer.size.toNat →
      Sync s d (written s.pBuffer (List.foldl (fun s x => put x s) s xs).pBuffer ++ future) →
      Stuck (loadLoop get xs.length d v acc).1 ∨
        ∃ ys, (loadLoop get xs.length d v acc).2 = acc ++ ys ∧ ys.length = xs.length ∧
          Sync (List.foldl (fun s x => put x s) s xs) (loadLoop get xs.length d v acc).1
            future ∧
          ((List.foldl (fun s x => put x s) s xs).iError = 0 →
            (List.foldl (fun s x => put x s) s xs).pBuffer.pWrite ≠
                s.pBuffer.pWrite + (xs.map extent).sum ∨ s.iError ≠ 0 →
            ys ≠ xs) := by
  induction xs with
  | nil =>
      intro s d v acc future _ _ hsync
      rw [List.foldl_nil, written_self, List.nil_append] at hsync
      refine Or.inr ⟨[], (List.append_nil acc).symm, rfl, hsync, ?_⟩
      rintro herr (hmoved | herr')
      · exact absurd rfl hmoved
      · exact absurd herr herr'
  | cons x xs ih =>
      intro s d v acc future hblocked hstays hsync
      have ho := hsync.writer
      have hhead := hput x List.mem_cons_self s
      have hrest := foldl_advances (fun y hy => hput y (List.mem_cons_of_mem _ hy)) (put x s)
      rw [List.foldl_cons] at hstays hsync ⊢
      obtain ⟨hstays₁, hstays₂, -, hbytes⟩ := hhead.split hrest ho hstays
      rw [hbytes, List.append_assoc] at hsync
      rw [List.length_cons, loadLoop]
      rcases htracks x List.mem_cons_self s d v _ hstays₁ hsync with ⟨hsteady, hstuck⟩ | hfollows
      · exact Or.inl (hsteady.loadLoop xs.length _ _ _ hstuck)
      · obtain hstuck | ⟨ys, hvalues, hlen, hsync', hdiffers⟩ :=
          ih (fun y hy => hput y (List.mem_cons_of_mem _ hy))
            (fun y hy => htracks y (List.mem_cons_of_mem _ hy)) (put x s) (get d v).1
            (get d v).2 (acc ++ [(get d v).2]) future hfollows.blocked_of_error hstays₂
            hfollows.sync
        · exact Or.inl hstuck
        · refine Or.inr ⟨(get d v).2 :: ys, ?_, ?_, hsync', ?_⟩
          · rw [hvalues, List.append_assoc, List.singleton_append]
          · rw [List.length_cons, hlen]
          · intro herr hwrong heq
            rw [List.cons.injEq] at heq
            by_cases hone : (put x s).iError = 0
            · -- nothing pending behind the head: it came back, so the tail is at fault
              have hhere : ¬ ((put x s).pBuffer.pWrite ≠ s.pBuffer.pWrite + extent x ∨
                  (s.iError ≠ 0 ∧ blocked s v)) :=
                fun hbad => hfollows.differs hone hbad heq.1
              push Not at hhere
              have hok : s.iError = 0 := by
                by_contra hpending
                exact hhere.2 hpending (hblocked hpending)
              rw [List.map_cons, List.sum_cons, ← Nat.add_assoc, ← hhere.1] at hwrong
              exact hdiffers herr (Or.inl (hwrong.resolve_right (not_not_intro hok))) heq.2
            · exact hdiffers herr (Or.inr hone) heq.2

/-- A list of short length is written count first, then element by element. -/
theorem put_list_eq (h : Host) (t : Ty) (l : List t.Val) (hlen : l.length ≤ 65535)
    (s : Serializer) :
    (Ty.list t).put h l s =
      List.foldl (fun s x => t.put h x s) (s.putScalar h .uInt16 (UInt16.ofNat l.length)) l := by
  simp only [Ty.put]
  split
  · rfl
  · next hzero =>
      have hnil : l = [] := by
        rw [gt_iff_lt, UInt16.lt_iff_toNat_lt,
          UInt16.toNat_ofNat_of_lt' (Nat.lt_of_le_of_lt hlen (by decide))] at hzero
        exact List.eq_nil_of_length_eq_zero (Nat.eq_zero_of_not_pos hzero)
      rw [hnil]
      rfl

/-- **A list in step**: whatever was pending, its count clears it or is not there. -/
theorem list_tracks (h : Host) {t : Ty} {l : List t.Val} (hlen : l.length ≤ 65535)
    (hput : ∀ x ∈ l, ∀ s, Advances s (t.put h x s))
    (htracks : ∀ x ∈ l, Tracks (t.put h) (t.get h) t.Blocked t.extent x)
    {s d : Serializer} (v : List t.Val) {future : List UInt8}
    (hstays : ((Ty.list t).put h l s).pBuffer.pWrite ≤ s.pBuffer.size.toNat)
    (halign : Aligned s d (written s.pBuffer ((Ty.list t).put h l s).pBuffer ++ future)) :
    Stuck ((Ty.list t).get h d v).1 ∨
      Follows (Ty.list t).Blocked (Ty.list t).extent s ((Ty.list t).put h l s)
        ((Ty.list t).get h d v).1 v l ((Ty.list t).get h d v).2 future := by
  have ho := halign.writer
  have hone := putScalar_advances h .uInt16 (UInt16.ofNat l.length) s
  have helems := foldl_advances hput (s.putScalar h .uInt16 (UInt16.ofNat l.length))
  rw [put_list_eq h t l hlen] at hstays halign ⊢
  obtain ⟨hstays₁, hstays₂, -, hparts⟩ := hone.split helems ho hstays
  have hcases := putScalar_cases h .uInt16 ho (UInt16.ofNat l.length) hstays₁
  obtain ⟨s₁, hs₁⟩ : ∃ s₁, s₁ = s.putScalar h .uInt16 (UInt16.ofNat l.length) := ⟨_, rfl⟩
  rw [← hs₁] at hstays₂ halign hparts hcases ⊢
  rcases hcases with
    ⟨hfit, hsaved⟩ | ⟨hfull, hrefused⟩
  · rw [hparts, (hsaved.extends ho).2, List.append_assoc] at halign
    have hun := halign.unread_eq
    rw [← halign.mode_eq] at hun
    have hread := Ty.get_list_counted halign.ordered v _ _ hun
    have hsize : (UInt16.ofNat l.length).toNat = l.length :=
      UInt16.toNat_ofNat_of_lt' (Nat.lt_of_le_of_lt hlen (by decide))
    obtain ⟨d₁, hd₁⟩ : ∃ d₁, d₁ =
        d.ok { d.pBuffer with pRead := d.pBuffer.pRead + Scalar.uInt16.width } := ⟨_, rfl⟩
    have hloaded : Loaded d d₁
        (Scalar.uInt16.wire h s.changeByteOrder (UInt16.ofNat l.length)).length := by
      rw [hd₁, Ports.wire_length]
      exact ⟨rfl, rfl, rfl⟩
    rw [hsize, ← hd₁] at hread
    rw [hread]
    have hsync := halign.next hsaved hloaded
    rcases Tracks.loop hput htracks s₁ d₁ (t.fresh h) v future
      (fun herr => absurd hsaved.noError herr) hstays₂ hsync with
      hstuck | ⟨ys, hvalues, hcount', hend, hdiffers⟩
    · exact Or.inl hstuck
    · rw [hvalues]
      refine Or.inr ⟨hend, ?_, ?_⟩
      · intro hpending hnil
        have hempty : v ++ ys = [] := hnil
        have hl : l = [] := by
          apply List.eq_nil_of_length_eq_zero
          rw [← hcount', (List.append_eq_nil_iff.mp hempty).2, List.length_nil]
        rw [hl, List.foldl_nil] at hpending
        exact hpending hsaved.noError
      · intro herr hwrong heq
        have hsame : v ++ ys = l := heq
        have hlengths := congrArg List.length hsame
        rw [List.length_append, hcount'] at hlengths
        have hv : v = [] := List.eq_nil_of_length_eq_zero (by omega)
        rw [hv, List.nil_append] at hsame
        refine hdiffers herr (Or.inl ?_) hsame
        intro hfull
        rw [hsaved.appends.write_eq, Ports.wire_length, Nat.add_assoc] at hfull
        rcases hwrong with hmoved | ⟨-, hblocked⟩
        · exact hmoved hfull
        · exact hblocked hv
  · have hfew := halign.unread_lt hfull
    rw [get_list_short h t halign.ordered hfew v]
    exact Or.inl ⟨halign.ordered, show (-1 : Int) ≠ 0 by decide, hfew⟩

mutual
/-- **The writer and the reader of a value in step.** -/
theorem Ty.follow (h : Host) :
    ∀ (t : Ty) (x : t.Val), t.scalarLeaves = true → t.short x = true →
      Tracks (t.put h) (t.get h) t.Blocked t.extent x
  | .scalar k, x, _, _ => scalar_tracks h k x
  | .string, _, hleaves, _ => absurd hleaves Bool.false_ne_true
  | .archive fs, x, hleaves, hshort => Fields.follow h fs x hleaves hshort
  | .list t, x, hleaves, hshort => by
      simp only [Ty.short, Bool.and_eq_true, decide_eq_true_eq] at hshort
      intro s d v future hstays hsync
      have hlist := @list_tracks h t x hshort.1
        (fun y _ s' => Ty.put_advances h t y s' hleaves)
        (fun y hy => Ty.follow h t y hleaves (List.all_eq_true.mp hshort.2 y hy))
        s d v future hstays hsync.toAligned
      rcases hlist with hstuck | hfollows
      · exact Or.inl ⟨list_steady h t, hstuck⟩
      · exact Or.inr hfollows

theorem Fields.follow (h : Host) :
    ∀ (fs : Fields) (x : fs.Val), fs.scalarLeaves = true → fs.short x = true →
      Tracks (fs.save h) (fs.load h) (fun _ _ => True) fs.extent x
  | .nil, x, _, _ => by
      intro s d v future _ hsync
      have hnone : written s.pBuffer (Fields.nil.save h x s).pBuffer = [] := written_self _
      rw [hnone, List.nil_append] at hsync
      refine Or.inr ⟨hsync, fun _ => trivial, ?_⟩
      rintro herr (hmoved | ⟨hpending, -⟩)
      · exact absurd rfl hmoved
      · exact absurd herr hpending
  | .cons t fs, (x, xs), hleaves, hshort => by
      rw [Fields.scalarLeaves, Bool.and_eq_true] at hleaves
      rw [Fields.short, Bool.and_eq_true] at hshort
      rintro s d ⟨v, vs⟩ future hstays hsync
      by_cases herr : s.iError = 0
      · have ho := hsync.writer
        have hhead := Ty.put_advances h t x s hleaves.1
        have hrest := Fields.save_advances h fs xs (t.put h x s) hleaves.2
        have hsave : (Fields.cons t fs).save h (x, xs) s = fs.save h xs (t.put h x s) := by
          rw [Fields.save, entryPut_of_ok _ herr]
        have hload : (Fields.cons t fs).load h d (v, vs) =
            ((fs.load h (t.get h d v).1 vs).1,
              ((t.get h d v).2, (fs.load h (t.get h d v).1 vs).2)) := by
          rw [Fields.load, entryGet_of_ok _ (hsync.ok_iff.mpr herr)]
          rfl
        rw [hsave] at hstays hsync
        obtain ⟨hstays₁, hstays₂, -, hbytes⟩ := hhead.split hrest ho hstays
        rw [hbytes, List.append_assoc] at hsync
        rw [hsave, hload]
        rcases Ty.follow h t x hleaves.1 hshort.1 s d v _ hstays₁ hsync with ⟨-, hstuck⟩ | hfollows
        · exact Or.inl ⟨load_steady h (.cons t fs), load_steady h fs _ vs hstuck⟩
        rcases Fields.follow h fs xs hleaves.2 hshort.2 _ _ vs _ hstays₂ hfollows.sync with
          ⟨-, hstuck⟩ | hfollows'
        · exact Or.inl ⟨load_steady h (.cons t fs), hstuck⟩
        refine Or.inr ⟨hfollows'.sync, fun _ => trivial, ?_⟩
        rintro herr' hwrong heq
        have hone : (t.put h x s).iError = 0 := by
          by_contra hpending
          rw [Fields.save_of_error h fs xs _ hpending] at herr'
          exact hpending herr'
        have hpair : (t.get h d v).2 = x ∧ (fs.load h (t.get h d v).1 vs).2 = xs :=
          Prod.mk.inj heq
        have hhere : (t.put h x s).pBuffer.pWrite = s.pBuffer.pWrite + t.extent x := by
          by_contra hmoved
          exact hfollows.differs hone (Or.inl hmoved) hpair.1
        refine hfollows'.differs herr' (Or.inl ?_) hpair.2
        rcases hwrong with hmoved | ⟨hpending, -⟩
        · rw [hhere, Nat.add_assoc]
          exact hmoved
        · exact absurd herr hpending
      · have hskip := Fields.save_of_error h (.cons t fs) (x, xs) s herr
        rw [hskip, written_self, List.nil_append] at hsync
        rw [hskip, Fields.load_of_error h (.cons t fs) (v, vs) d
          (fun hok => herr (hsync.ok_iff.mp hok))]
        exact Or.inr ⟨hsync, fun _ => trivial, fun hok => absurd hok herr⟩
end

end InStep

/-! ## Main results -/

section Nested

/-- A save keeps to its buffer if its cursor does. -/
theorem Ty.contained_iff (h : Host) (t : Ty) (v : t.Val) (s : Serializer) :
    t.Contained v s ↔ (t.put h v s).pBuffer.pWrite ≤ s.pBuffer.size.toNat := by
  have hcursor := congrArg Filling.cursor (Ty.put_filling h t v s)
  exact ⟨fun hle => hcursor.le.trans hle, fun hle => hcursor.ge.trans hle⟩

/-- Where everything fits it is written whole. -/
theorem list_saved_of_fit {h : Host} {t : Ty} {l : List t.Val} {s : Serializer}
    (hshort : (Ty.list t).short l = true) (hs : Ordered s.pBuffer)
    (hfit : s.pBuffer.pWrite + (Ty.list t).extent l ≤ s.pBuffer.size.toNat) :
    Saved s ((Ty.list t).put h l s) ((Ty.list t).wire h s.changeByteOrder l) := by
  have hsent := Ty.sent_of_counted h s.changeByteOrder (.list t) l
    (Ty.counted_of_short (.list t) l hshort)
  have hlen := Ty.wire_length h s.changeByteOrder (.list t) l
  have hsaved := Ty.put_list_saved (Ty.put_accepting h t) hs l (by rwa [hsent, hlen])
  exact hsent ▸ hsaved

variable {h : Host} {t : Ty} {l : List t.Val} {s d : Serializer}
  (hleaves : t.scalarLeaves = true) (hshort : (Ty.list t).short l = true)
  (hd : Ordered d.pBuffer) (hmode : d.changeByteOrder = s.changeByteOrder)
  (hun : d.pBuffer.unread = written s.pBuffer ((Ty.list t).put h l s).pBuffer)
include hleaves hshort hd hmode hun

/-- Where everything fits the faithful values come back. -/
theorem decodesBack_iff_of_fit (hs : Ordered s.pBuffer)
    (hfit : s.pBuffer.pWrite + (Ty.list t).extent l ≤ s.pBuffer.size.toNat) :
    t.DecodesBack h l d ↔ (Ty.list t).faithful l = true := by
  have hsaved := @list_saved_of_fit h t l s hshort hs hfit
  rw [hsaved.appends.written_eq hs, ← hmode] at hun
  have hshort' := hshort
  simp only [Ty.short, Bool.and_eq_true, decide_eq_true_eq] at hshort'
  have hget : ∀ x ∈ l, LoadsOver (t.get h) (t.wire h) (t.carry h) x :=
    fun x hx => Ty.loadsOver h t x hleaves (List.all_eq_true.mp hshort'.2 x hx)
  obtain ⟨hload, hvalue⟩ := LoadsOver.list_load hget hshort'.1 hd [] []
    (hun.trans (List.append_nil _).symm)
  have hcarry := Ty.carry_eq_iff h (.list t) ([] : List t.Val) l hleaves
  constructor
  · rintro ⟨-, hsame⟩
    exact (hcarry.mp (hvalue.symm.trans hsame)).2
  · intro hfaithful
    exact ⟨hload.noError, hvalue.trans (hcarry.mpr ⟨rfl, hfaithful⟩)⟩

/-- Where something is refused and the save ends without an error, nothing comes back. -/
theorem fit_of_decodesBack (hs : Ordered s.pBuffer)
    (hstays : ((Ty.list t).put h l s).pBuffer.pWrite ≤ s.pBuffer.size.toNat)
    (herr : ((Ty.list t).put h l s).iError = 0) (hback : t.DecodesBack h l d) :
    s.pBuffer.pWrite + (Ty.list t).extent l ≤ s.pBuffer.size.toNat := by
  have hext := (Ty.put_advances h (.list t) l s hleaves).extending hs hstays
  have hshort' := hshort
  simp only [Ty.short, Bool.and_eq_true, decide_eq_true_eq] at hshort'
  have halign : Aligned s d
      (written s.pBuffer ((Ty.list t).put h l s).pBuffer ++ []) := by
    refine ⟨hs, hd, hmode, hun.trans (List.append_nil _).symm, ?_⟩
    rw [List.append_nil, ← hext.appends.write_eq]
    exact hstays
  have hlist := @list_tracks h t l hshort'.1
    (fun y _ s' => Ty.put_advances h t y s' hleaves)
    (fun y hy => Ty.follow h t y hleaves (List.all_eq_true.mp hshort'.2 y hy)) s d [] []
    hstays halign
  rcases hlist with hstuck | hfollows
  · exact absurd hback.1 hstuck.failed
  · by_contra hover
    refine hfollows.differs herr (Or.inl ?_) hback.2
    intro hfull
    rw [hfull] at hstays
    exact hover hstays

end Nested

/-- **Which nested lists come back**: a value that is saved with error code 0 comes back, by
a save that keeps to its buffer, exactly if it fits and in each of its lists all elements
but the last are hollow. -/
theorem nested_lists_round_trip_iff (h : Host) (t : Ty) (l : List t.Val) (s d : Serializer)
    (hleaves : t.scalarLeaves = true) (hshort : (Ty.list t).short l = true)
    (hs : Ordered s.pBuffer) (herr : ((Ty.list t).put h l s).iError = 0)
    (hd : Ordered d.pBuffer) (hmode : d.changeByteOrder = s.changeByteOrder)
    (hun : d.pBuffer.unread = written s.pBuffer ((Ty.list t).put h l s).pBuffer) :
    (Ty.list t).Contained l s ∧ t.DecodesBack h l d ↔
      s.pBuffer.pWrite + (Ty.list t).extent l ≤ s.pBuffer.size.toNat ∧
        (Ty.list t).faithful l = true := by
  have hcontained := Ty.contained_iff h (.list t) l s
  constructor
  · rintro ⟨hstays, hback⟩
    have hfit := fit_of_decodesBack hleaves hshort hd hmode hun hs (hcontained.mp hstays)
      herr hback
    exact ⟨hfit, (decodesBack_iff_of_fit hleaves hshort hd hmode hun hs hfit).mp hback⟩
  · rintro ⟨hfit, hfaithful⟩
    have hend := (@list_saved_of_fit h t l s hshort hs hfit).appends.write_eq
    have hlen := Ty.wire_length h s.changeByteOrder (.list t) l
    exact ⟨hcontained.mpr (by omega),
      (decodesBack_iff_of_fit hleaves hshort hd hmode hun hs hfit).mpr hfaithful⟩

/-- `List< List<Byte> >`, by its element type. -/
def byteRows : Ty := .list (.scalar .byte)

/-- A value of it. -/
def byteRows.of (rows : List (List UInt8)) : List byteRows.Val := rows

/-- An empty row and one with an element. -/
theorem nested_lists_round_trip_iff_two_rows :
    byteRows.DecodesBack .x86_64 (byteRows.of [[], [7]])
      (.new ⟨[0, 2, 0, 0, 0, 1, 7], 7, 0, 7⟩ true) :=
  (nested_lists_round_trip_iff .x86_64 byteRows (byteRows.of [[], [7]])
    (.new (.ofData (List.replicate 8 0) 8 0) true) (.new ⟨[0, 2, 0, 0, 0, 1, 7], 7, 0, 7⟩ true)
    rfl (by decide) ⟨by decide, by decide, by decide⟩ (by decide)
    ⟨by decide, by decide, by decide⟩ rfl (by decide)).mpr (by decide) |>.2

/-- **The second row comes back with the first in front of it.** -/
theorem rows_accumulate :
    (¬ ∀ (h : Host) (t : Ty) (l : List t.Val) (s d : Serializer), t.scalarLeaves = true →
      (Ty.list t).short l = true → Ordered s.pBuffer →
      s.pBuffer.pWrite + (Ty.list t).extent l ≤ s.pBuffer.size.toNat →
      ((Ty.list t).put h l s).iError = 0 → Ordered d.pBuffer →
      d.changeByteOrder = s.changeByteOrder →
      d.pBuffer.unread = written s.pBuffer ((Ty.list t).put h l s).pBuffer →
      t.DecodesBack h l d) ∧
    ((Ty.list byteRows).get .x86_64 (.new ⟨[0, 2, 0, 1, 1, 0, 1, 2], 8, 0, 8⟩ true)
      (byteRows.of [])).2 = byteRows.of [[1], [1, 2]] := by
  constructor
  · intro hall
    have hd : Ordered (Serializer.new ⟨[0, 2, 0, 1, 1, 0, 1, 2], 8, 0, 8⟩ true).pBuffer :=
      ⟨by decide, by decide, by decide⟩
    have hs : Ordered (Serializer.new (.ofData (List.replicate 8 0) 8 0) true).pBuffer :=
      ⟨by decide, by decide, by decide⟩
    have hback := hall .x86_64 byteRows (byteRows.of [[1], [2]]) _ _ rfl (by decide) hs
      (by decide) (by decide) hd rfl (by decide)
    have hfaithful := (@decodesBack_iff_of_fit .x86_64 byteRows (byteRows.of [[1], [2]])
      (.new (.ofData (List.replicate 8 0) 8 0) true) _ rfl (by decide) hd rfl (by decide) hs
      (by decide)).mp hback
    exact absurd hfaithful (by decide)
  · rfl

end MyGenSvr.Ports
