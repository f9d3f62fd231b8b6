import MyGenSvr.Ports.DecodedElements
import MyGenSvr.Ports.RefusedPieces

/-!
# Short inputs of a load

What `RefusedPieces` says of the pieces of a value holds of the scalars of a type: one
that finds too few bytes leaves them to the extractions that follow.  After the failure
these are the count of the next element of a `List` of lists, and once that is read all
that comes behind.  They need the fewest bytes if every list among them is empty, so the
failure can be forgotten exactly if the scalar is wider than all this (`Fields.forgets`).

## Main results

* `Fields.drain_fails` — a type without such scalars forgets no failure.
* `Fields.drain_forgotten` — for a type with one there is an input whose load does.
-/

namespace MyGenSvr.Ports

open MyGenSvr.Verified.Buffer

mutual
/-- The fewest bytes that a value of the type takes. -/
def Ty.least : Ty → Nat
  | .scalar k => k.width
  | .string => 1
  | .archive fs => fs.least
  | .list _ => Scalar.uInt16.width

def Fields.least : Fields → Nat
  | .nil => 0
  | .cons t fs => t.least + fs.least
end

mutual
/-- The bytes of a value without strings whose lists have two elements each. -/
def Ty.doubled : Ty → Nat
  | .scalar k => k.width
  | .string => 1
  | .archive fs => fs.doubled
  | .list t => Scalar.uInt16.width + 2 * t.doubled

def Fields.doubled : Fields → Nat
  | .nil => 0
  | .cons t fs => t.doubled + fs.doubled
end

/-- What is read at least after a failure in an element that is not the last one. -/
def Ty.behindOne (t : Ty) (behind : Option Nat) (rest : Nat) : Option Nat :=
  if t.isArchive then behind else some (t.least + rest)

mutual
/-- A scalar of the type is wider than what is read at least after its failure.  Behind
the value there are at least `rest` bytes to read; `behind` of them are tried if the
error code is not 0. -/
def Ty.forgets : Ty → Option Nat → Nat → Bool
  | .scalar k, behind, _ => outweighs k.width behind
  | .string, _, _ => false
  | .archive fs, behind, rest => fs.forgets behind rest
  | .list t, behind, rest =>
      outweighs Scalar.uInt16.width behind || t.forgets behind rest ||
        t.forgets (t.behindOne behind rest) (t.least + rest)

def Fields.forgets : Fields → Option Nat → Nat → Bool
  | .nil, _, _ => false
  | .cons t fs, behind, rest => t.forgets behind (fs.least + rest) || fs.forgets behind rest
end

/-! ## No failure is forgotten -/

/-- Something has failed, and what is read next does not find all its bytes. -/
structure Draining.Short (p : Draining) (c : Bool) (behind : Option Nat) (rest : Nat) :
    Prop where
  ordered : Ordered p.buffer
  mode_eq : p.changeByteOrder = c
  short : (p.ok = true ∧ p.buffer.unread.length < rest) ∨
    (p.ok = false ∧ ∀ n, behind = some n → p.buffer.unread.length < n)

section Short

variable {h : Host} {c : Bool} {behind : Option Nat} {rest : Nat}

/-- Values of type `t` are cut short wherever too few bytes are left. -/
def Ty.CutShort (h : Host) (c : Bool) (t : Ty) (behind : Option Nat) (rest : Nat) : Prop :=
  ∀ p : Draining, Ordered p.buffer → p.changeByteOrder = c →
    p.buffer.unread.length < t.least + rest → p.ok = true ∨ t.isArchive = false →
    (t.drain h p).Short c behind rest

theorem Ty.drain_of_error {t : Ty} (ht : t.isArchive = true) {p : Draining}
    (hp : p.ok = false) : t.drain h p = p := by
  cases t with
  | archive fs => exact Fields.drain_of_error h fs p hp
  | scalar k => exact Bool.noConfusion ht
  | string => exact Bool.noConfusion ht
  | list t => exact Bool.noConfusion ht

/-- The loop of a `List` over the elements that are left, of which at least `least` bytes
each are needed. -/
theorem Ty.iterate_short {t : Ty} (hlast : t.CutShort h c behind rest)
    (hother : t.CutShort h c (t.behindOne behind rest) (t.least + rest)) (n : Nat) :
    ∀ p : Draining,
      p.Short c (if n = 0 then behind else t.behindOne behind rest)
        (if n = 0 then rest else t.least + rest) →
      (Nat.iterate (t.drain h) n p).Short c behind rest := by
  induction n with
  | zero => exact fun p hp => hp
  | succ n ih =>
      intro p hp
      rw [if_neg n.succ_ne_zero, if_neg n.succ_ne_zero] at hp
      rw [Function.iterate_succ_apply]
      apply ih
      have hstep : p.buffer.unread.length < t.least + rest →
          p.ok = true ∨ t.isArchive = false →
          (t.drain h p).Short c (if n = 0 then behind else t.behindOne behind rest)
            (if n = 0 then rest else t.least + rest) := by
        intro hlen hok
        by_cases hn : n = 0
        · rw [if_pos hn, if_pos hn]
          exact hlast p hp.ordered hp.mode_eq hlen hok
        · rw [if_neg hn, if_neg hn]
          exact hother p hp.ordered hp.mode_eq (by omega) hok
      rcases hp.short with ⟨hok, hlen⟩ | ⟨hok, hbehind⟩
      · exact hstep hlen (Or.inl hok)
      · cases ht : t.isArchive with
        | true =>
            rw [Ty.behindOne, ht, if_pos rfl] at hbehind ⊢
            rw [Ty.drain_of_error ht hok, ite_self]
            exact ⟨hp.ordered, hp.mode_eq, Or.inr ⟨hok, hbehind⟩⟩
        | false =>
            rw [Ty.behindOne, ht, if_neg Bool.false_ne_true] at hbehind
            exact hstep (hbehind _ rfl) (Or.inr ht)

mutual
/-- A failure is not made up for by a type without heavy scalars. -/
theorem Ty.drain_short (h : Host) (c : Bool) : ∀ (t : Ty), t.stringFree = true →
    ∀ (behind : Option Nat) (rest : Nat), t.forgets behind rest = false →
      t.CutShort h c behind rest
  | .scalar k, _ => by
      intro behind rest hlight p ho hmode hlen _
      rw [Ty.least] at hlen
      rw [Ty.drain, skipScalar_eq ho]
      by_cases hfit : k.width ≤ p.buffer.unread.length
      · rw [if_pos hfit]
        refine ⟨ho.advance hfit, hmode, Or.inl ⟨rfl, ?_⟩⟩
        show (DataBuffer.unread { p.buffer with pRead := _ }).length < rest
        rw [unread_advance, List.length_drop]
        omega
      · rw [if_neg hfit]
        refine ⟨ho, hmode, Or.inr ⟨rfl, ?_⟩⟩
        rintro n rfl
        have hle : k.width ≤ n := Nat.le_of_not_lt (of_decide_eq_false hlight)
        show p.buffer.unread.length < n
        omega
  | .string, hfree => Bool.noConfusion hfree
  | .archive fs, hfree => fun behind rest hlight p ho hmode hlen hok =>
      Fields.drain_short h c fs hfree behind rest hlight p ho hmode hlen
        (hok.resolve_right (Bool.noConfusion ·))
  | .list t, hfree => by
      intro behind rest hlight p ho hmode hlen _
      rw [Ty.forgets, Bool.or_eq_false_iff, Bool.or_eq_false_iff] at hlight
      obtain ⟨⟨hcount, hlast⟩, hother⟩ := hlight
      rw [Ty.least] at hlen
      rw [Ty.drain, readCount_eq h _ ho]
      by_cases hfit : Scalar.uInt16.width ≤ p.buffer.unread.length
      · rw [if_pos hfit]
        apply Ty.iterate_short (Ty.drain_short h c t hfree _ _ hlast)
          (Ty.drain_short h c t hfree _ _ hother)
        refine ⟨ho.advance hfit, hmode, Or.inl ⟨rfl, ?_⟩⟩
        show (DataBuffer.unread { p.buffer with pRead := _ }).length < _
        rw [unread_advance, List.length_drop]
        split <;> omega
      · rw [if_neg hfit]
        refine ⟨ho, hmode, Or.inr ⟨rfl, ?_⟩⟩
        rintro n rfl
        have hle : Scalar.uInt16.width ≤ n := Nat.le_of_not_lt (of_decide_eq_false hcount)
        show p.buffer.unread.length < n
        omega

theorem Fields.drain_short (h : Host) (c : Bool) : ∀ (fs : Fields), fs.stringFree = true →
    ∀ (behind : Option Nat) (rest : Nat), fs.forgets behind rest = false →
      ∀ p : Draining, Ordered p.buffer → p.changeByteOrder = c →
        p.buffer.unread.length < fs.least + rest → p.ok = true →
        (fs.drain h p).Short c behind rest
  | .nil, _ => by
      intro behind rest _ p ho hmode hlen hok
      rw [Fields.least, Nat.zero_add] at hlen
      exact ⟨ho, hmode, Or.inl ⟨hok, hlen⟩⟩
  | .cons t fs, hfree => by
      intro behind rest hlight p ho hmode hlen hok
      rw [Fields.stringFree, Bool.and_eq_true] at hfree
      rw [Fields.forgets, Bool.or_eq_false_iff] at hlight
      rw [Fields.least, Nat.add_assoc] at hlen
      rw [Fields.drain, if_pos hok]
      have hhead := Ty.drain_short h c t hfree.1 behind _ hlight.1 p ho hmode hlen (Or.inl hok)
      rcases hhead.short with ⟨hok', hlen'⟩ | ⟨hok', hbehind⟩
      · exact Fields.drain_short h c fs hfree.2 behind rest hlight.2 _ hhead.ordered
          hhead.mode_eq hlen' hok'
      · rw [Fields.drain_of_error h fs _ hok']
        exact ⟨hhead.ordered, hhead.mode_eq, Or.inr ⟨hok', hbehind⟩⟩
end

/-- The guarded pass keeps the cursors in order. -/
theorem parse_ordered {t : Ty} {b b' : DataBuffer} (ho : Ordered b)
    (hparse : t.parse h c b = some b') : Ordered b' := by
  have hget := Ty.get_draining h t (.new b c) (t.fresh h)
  have hdrain : t.drain h (Serializer.new b c).draining = ⟨b', c, true⟩ :=
    Ty.drainsAs h c t b b' hparse
  rw [hdrain] at hget
  have hbuffer : (t.get h (.new b c) (t.fresh h)).1.pBuffer = b' := congrArg Draining.buffer hget
  exact hbuffer ▸ Ty.get_ordered h t (.new b c) (t.fresh h) ho

/-- The loop of a `List` in which an extraction fails. -/
theorem Ty.iterate_fails {t : Ty} (hlast : t.CutShort h c behind rest)
    (hother : t.CutShort h c (t.behindOne behind rest) (t.least + rest))
    (hfails : ∀ b, Ordered b → t.parse h c b = none →
      (t.drain h ⟨b, c, true⟩).Short c behind rest ∧
        (t.drain h ⟨b, c, true⟩).Short c (t.behindOne behind rest) (t.least + rest))
    (n : Nat) :
    ∀ b, Ordered b → Nat.iterate (fun o => Option.bind o (t.parse h c)) n (some b) = none →
      (Nat.iterate (t.drain h) n ⟨b, c, true⟩).Short c behind rest := by
  induction n with
  | zero =>
      intro b _ hiter
      exact absurd hiter (by simp)
  | succ n ih =>
      intro b ho hiter
      rw [Function.iterate_succ_apply, Option.bind_some] at hiter
      rw [Function.iterate_succ_apply]
      cases hparse : t.parse h c b with
      | none =>
          apply Ty.iterate_short hlast hother
          by_cases hn : n = 0
          · rw [if_pos hn, if_pos hn]
            exact (hfails b ho hparse).1
          · rw [if_neg hn, if_neg hn]
            exact (hfails b ho hparse).2
      | some b₁ =>
          rw [hparse] at hiter
          rw [Ty.drainsAs h c t b b₁ hparse]
          exact ih b₁ (parse_ordered ho hparse) hiter

mutual
theorem Ty.drain_fails (h : Host) (c : Bool) : ∀ (t : Ty), t.stringFree = true →
    ∀ (behind : Option Nat) (rest : Nat), t.forgets behind rest = false →
      ∀ b, Ordered b → t.parse h c b = none → (t.drain h ⟨b, c, true⟩).Short c behind rest
  | .scalar k, _ => by
      intro behind rest hlight b ho hparse
      rw [Ty.parse] at hparse
      rw [Ty.drain, hparse]
      rw [skipScalar_eq ho] at hparse
      refine ⟨ho, rfl, Or.inr ⟨rfl, ?_⟩⟩
      rintro n rfl
      have hle : k.width ≤ n := Nat.le_of_not_lt (of_decide_eq_false hlight)
      have hfull : ¬ k.width ≤ b.unread.length := by
        intro hfit
        rw [if_pos hfit] at hparse
        exact absurd hparse (by simp)
      show b.unread.length < n
      omega
  | .string, hfree => Bool.noConfusion hfree
  | .archive fs, hfree => Fields.drain_fails h c fs hfree
  | .list t, hfree => by
      intro behind rest hlight b ho hparse
      rw [Ty.forgets, Bool.or_eq_false_iff, Bool.or_eq_false_iff] at hlight
      obtain ⟨⟨hcount, hlast⟩, hother⟩ := hlight
      rw [Ty.parse] at hparse
      rw [Ty.drain]
      rw [readCount_eq h c ho] at hparse ⊢
      by_cases hfit : Scalar.uInt16.width ≤ b.unread.length
      · rw [if_pos hfit] at hparse ⊢
        exact Ty.iterate_fails (Ty.drain_short h c t hfree _ _ hlast)
          (Ty.drain_short h c t hfree _ _ hother)
          (fun b ho hparse => ⟨Ty.drain_fails h c t hfree _ _ hlast b ho hparse,
            Ty.drain_fails h c t hfree _ _ hother b ho hparse⟩) _ _ (ho.advance hfit) hparse
      · rw [if_neg hfit]
        refine ⟨ho, rfl, Or.inr ⟨rfl, ?_⟩⟩
        rintro n rfl
        have hle : Scalar.uInt16.width ≤ n := Nat.le_of_not_lt (of_decide_eq_false hcount)
        show b.unread.length < n
        omega

/-- **A type without heavy scalars** forgets no failure. -/
theorem Fields.drain_fails (h : Host) (c : Bool) : ∀ (fs : Fields), fs.stringFree = true →
    ∀ (behind : Option Nat) (rest : Nat), fs.forgets behind rest = false →
      ∀ b, Ordered b → fs.parse h c b = none → (fs.drain h ⟨b, c, true⟩).Short c behind rest
  | .nil, _ => fun _ _ _ _ _ hparse => absurd hparse (by simp [Fields.parse])
  | .cons t fs, hfree => by
      intro behind rest hlight b ho hparse
      rw [Fields.stringFree, Bool.and_eq_true] at hfree
      rw [Fields.forgets, Bool.or_eq_false_iff] at hlight
      rw [Fields.parse] at hparse
      rw [Fields.drain, if_pos rfl]
      cases hone : t.parse h c b with
      | none =>
          have hhead := Ty.drain_fails h c t hfree.1 behind _ hlight.1 b ho hone
          rcases hhead.short with ⟨hok, hlen⟩ | ⟨hok, hbehind⟩
          · exact Fields.drain_short h c fs hfree.2 behind rest hlight.2 _ hhead.ordered
              hhead.mode_eq hlen hok
          · rw [Fields.drain_of_error h fs _ hok]
            exact ⟨hhead.ordered, hhead.mode_eq, Or.inr ⟨hok, hbehind⟩⟩
      | some b₁ =>
          rw [hone] at hparse
          rw [Ty.drainsAs h c t b b₁ hone]
          exact Fields.drain_fails h c fs hfree.2 behind rest hlight.2 b₁
            (parse_ordered ho hone) hparse
end

end Short

/-! ## A failure is forgotten -/

/-- The unread bytes are `n` zeros. -/
def Blank (b : DataBuffer) (n : Nat) : Prop := Ordered b ∧ b.unread = List.replicate n 0

/-- Nothing has failed and `rest` zeros are left, or something has and exactly what is
tried next. -/
structure Draining.Exact (p : Draining) (c : Bool) (behind : Option Nat) (rest : Nat) :
    Prop where
  mode_eq : p.changeByteOrder = c
  exact : (p.ok = true ∧ Blank p.buffer rest) ∨
    (p.ok = false ∧ ∃ n, behind = some n ∧ Blank p.buffer n)

section Exact

variable {h : Host} {c : Bool} {behind : Option Nat} {rest : Nat}

theorem zero_wire (h : Host) (c : Bool) :
    Scalar.uInt16.wire h c (0 : UInt16) = List.replicate Scalar.uInt16.width 0 := by
  rw [Scalar.wire, Scalar.convert]
  cases c <;> cases h.endian <;> rfl

/-- A count is read where its wire image lies. -/
theorem readCount_wire {b : DataBuffer} (ho : Ordered b) {size : UInt16} {more : List UInt8}
    (hun : b.unread = Scalar.uInt16.wire h c size ++ more) :
    b.readCount h c = some (size, { b with pRead := b.pRead + Scalar.uInt16.width }) := by
  have hlen := wire_length h c .uInt16 size
  have htake : b.unread.take Scalar.uInt16.width = Scalar.uInt16.wire h c size := by
    rw [hun, ← hlen, List.take_left]
  have hfit : Scalar.uInt16.width ≤ b.unread.length := by
    rw [hun, List.length_append, hlen]
    exact Nat.le_add_right _ _
  rw [readCount_eq h c ho, if_pos hfit, wireCount, htake, ofBits_wire]

mutual
/-- Zeros are the value with the fewest bytes. -/
theorem Ty.parse_zeros (h : Host) (c : Bool) : ∀ (t : Ty), t.stringFree = true →
    ∀ (b : DataBuffer) (more : List UInt8), Ordered b →
      b.unread = List.replicate t.least 0 ++ more →
      t.parse h c b = some { b with pRead := b.pRead + t.least }
  | .scalar k, _ => by
      intro b more ho hun
      have hfit : k.width ≤ b.unread.length := by
        rw [hun, List.length_append, List.length_replicate]
        exact Nat.le_add_right _ _
      rw [Ty.parse, skipScalar_eq ho, if_pos hfit]
      rfl
  | .string, hfree => Bool.noConfusion hfree
  | .archive fs, hfree => Fields.parse_zeros h c fs hfree
  | .list t, _ => by
      intro b more ho hun
      have hcount : b.unread = Scalar.uInt16.wire h c (0 : UInt16) ++ more := by
        rw [zero_wire, hun]
        rfl
      rw [Ty.parse, readCount_wire ho hcount]
      rfl

theorem Fields.parse_zeros (h : Host) (c : Bool) : ∀ (fs : Fields), fs.stringFree = true →
    ∀ (b : DataBuffer) (more : List UInt8), Ordered b →
      b.unread = List.replicate fs.least 0 ++ more →
      fs.parse h c b = some { b with pRead := b.pRead + fs.least }
  | .nil, _ => fun _ _ _ _ => rfl
  | .cons t fs, hfree => by
      intro b more ho hun
      rw [Fields.stringFree, Bool.and_eq_true] at hfree
      rw [Fields.least, List.replicate_add, List.append_assoc] at hun
      have hlen : (List.replicate t.least (0 : UInt8)).length = t.least :=
        List.length_replicate
      have hhead := Ty.parse_zeros h c t hfree.1 b _ ho hun
      have hrest := Fields.parse_zeros h c fs hfree.2 _ more (ordered_after ho hlen hun)
        (unread_after hlen hun)
      rw [Fields.parse, hhead, Option.bind_some, hrest, Fields.least, Nat.add_assoc]
end

/-- Scalars and lists are tried whatever the error code is. -/
theorem Ty.drain_tries {t : Ty} (ht : t.isArchive = false) (hfree : t.stringFree = true)
    (p : Draining) : t.drain h p = t.drain h { p with ok := true } := by
  cases t with
  | scalar k =>
      rw [Ty.drain, Ty.drain]
      show p.settle (p.buffer.skipScalar k) =
        Draining.settle { p with ok := true } (p.buffer.skipScalar k)
      cases p.buffer.skipScalar k <;> rfl
  | string => exact Bool.noConfusion hfree
  | archive fs => exact Bool.noConfusion ht
  | list t => rfl

theorem Ty.drain_blank {t : Ty} (hfree : t.stringFree = true) {p : Draining}
    (hmode : p.changeByteOrder = c) (hblank : Blank p.buffer (t.least + rest))
    (hok : p.ok = true ∨ t.isArchive = false) : (t.drain h p).Exact c behind rest := by
  obtain ⟨ho, hun⟩ := hblank
  rw [List.replicate_add] at hun
  have hlen : (List.replicate t.least (0 : UInt8)).length = t.least := List.length_replicate
  have hdrain : t.drain h p = t.drain h ⟨p.buffer, c, true⟩ := by
    subst hmode
    rcases hok with hok | ht
    · rw [← hok]
    · exact Ty.drain_tries ht hfree p
  rw [hdrain, Ty.drainsAs h c t _ _ (Ty.parse_zeros h c t hfree _ _ ho hun)]
  exact ⟨rfl, Or.inl ⟨rfl, ordered_after ho hlen hun, unread_after hlen hun⟩⟩

/-- An empty element behind the one that failed. -/
theorem Ty.drain_exact {t : Ty} (hfree : t.stringFree = true) {p : Draining}
    (hp : p.Exact c (t.behindOne behind rest) (t.least + rest)) :
    (t.drain h p).Exact c behind rest := by
  rcases hp.exact with ⟨hok, hblank⟩ | ⟨hok, n, hbehind, hblank⟩
  · exact Ty.drain_blank hfree hp.mode_eq hblank (Or.inl hok)
  · cases ht : t.isArchive with
    | true =>
        rw [Ty.behindOne, ht, if_pos rfl] at hbehind
        rw [Ty.drain_of_error ht hok]
        exact ⟨hp.mode_eq, Or.inr ⟨hok, n, hbehind, hblank⟩⟩
    | false =>
        rw [Ty.behindOne, ht, if_neg Bool.false_ne_true, Option.some.injEq] at hbehind
        rw [← hbehind] at hblank
        exact Ty.drain_blank hfree hp.mode_eq hblank (Or.inr ht)

/-- On some input of at most `most` bytes an extraction fails and all that are tried
after it succeed. -/
def Leaves (c : Bool) (drain : Draining → Draining) (parse : DataBuffer → Option DataBuffer)
    (behind : Option Nat) (rest most : Nat) : Prop :=
  ∃ (front : List UInt8) (room : Nat), front.length + room ≤ most ∧
    ∀ b, Ordered b → b.unread = front ++ List.replicate room 0 →
      parse b = none ∧ (drain ⟨b, c, true⟩).Exact c behind rest

/-- An extraction of `width` bytes, cut short. -/
theorem leaves_of_outweighs {drain : Draining → Draining}
    {parse : DataBuffer → Option DataBuffer} {width most : Nat}
    (hcut : ∀ b, Ordered b → b.unread.length < width →
      parse b = none ∧ drain ⟨b, c, true⟩ = ⟨b, c, false⟩)
    (hmost : width ≤ most) (hheavy : outweighs width behind = true) :
    Leaves c drain parse behind rest most := by
  cases behind with
  | none => exact Bool.noConfusion hheavy
  | some n =>
      have hlt : n < width := of_decide_eq_true hheavy
      refine ⟨[], n, by rw [List.length_nil]; omega, fun b ho hun => ?_⟩
      rw [List.nil_append] at hun
      obtain ⟨hparse, hdrain⟩ := hcut b ho (by rwa [hun, List.length_replicate])
      rw [hdrain]
      exact ⟨hparse, rfl, Or.inr ⟨rfl, n, rfl, ho, hun⟩⟩

/-- A list of `size` elements whose first one fails. -/
theorem Ty.list_leaves {t : Ty} {behind' : Option Nat} {rest' most most' : Nat}
    (hone : Leaves c (t.drain h) (t.parse h c) behind' rest' most')
    (size : UInt16) (hpos : 0 < size.toNat) (hmost : Scalar.uInt16.width + most' ≤ most)
    (hloop : ∀ p : Draining, p.Exact c behind' rest' →
      (Nat.iterate (t.drain h) (size.toNat - 1) p).Exact c behind rest) :
    Leaves c ((Ty.list t).drain h) ((Ty.list t).parse h c) behind rest most := by
  obtain ⟨front, room, hbound, hone⟩ := hone
  have hlen := Ports.wire_length h c .uInt16 size
  obtain ⟨n, hn⟩ : ∃ n, size.toNat = n + 1 := ⟨size.toNat - 1, by omega⟩
  refine ⟨Scalar.uInt16.wire h c size ++ front, room, ?_, fun b ho hun => ?_⟩
  · rw [List.length_append, hlen]
    omega
  · rw [List.append_assoc] at hun
    obtain ⟨hparse, hdrain⟩ := hone _ (ordered_after ho hlen hun) (unread_after hlen hun)
    rw [hn, Nat.add_sub_cancel] at hloop
    rw [Ty.parse, Ty.drain, readCount_wire ho hun]
    simp only [hn, Function.iterate_succ_apply, Option.bind_some, hparse, iterate_bind_none]
    exact ⟨trivial, hloop _ hdrain⟩

mutual
theorem Ty.least_le_doubled : ∀ t : Ty, t.least ≤ t.doubled
  | .scalar _ => Nat.le_refl _
  | .string => Nat.le_refl _
  | .archive fs => Fields.least_le_doubled fs
  | .list _ => Nat.le_add_right _ _

theorem Fields.least_le_doubled : ∀ fs : Fields, fs.least ≤ fs.doubled
  | .nil => Nat.le_refl 0
  | .cons t fs => Nat.add_le_add (Ty.least_le_doubled t) (Fields.least_le_doubled fs)
end

mutual
/-- The failure of a heavy scalar can be forgotten. -/
theorem Ty.drain_leaves (h : Host) (c : Bool) : ∀ (t : Ty), t.stringFree = true →
    ∀ (behind : Option Nat) (rest : Nat), t.forgets behind rest = true →
      Leaves c (t.drain h) (t.parse h c) behind rest (t.doubled + rest)
  | .scalar k, _ => by
      intro behind rest hheavy
      refine leaves_of_outweighs (fun b ho (hlen : b.unread.length < k.width) => ?_)
        (Nat.le_add_right _ _) hheavy
      have hskip : b.skipScalar k = none := by
        rw [skipScalar_eq ho, if_neg (Nat.not_le.mpr hlen)]
      rw [Ty.parse, Ty.drain, hskip]
      exact ⟨rfl, rfl⟩
  | .string, hfree => Bool.noConfusion hfree
  | .archive fs, hfree => Fields.drain_leaves h c fs hfree
  | .list t, hfree => by
      intro behind rest hheavy
      have hleast := Ty.least_le_doubled t
      rw [Ty.forgets, Bool.or_eq_true, Bool.or_eq_true] at hheavy
      rw [Ty.doubled]
      rcases hheavy with (hcount | hlast) | hother
      · refine leaves_of_outweighs (fun b ho hlen => ?_) (by omega) hcount
        have hread : b.readCount h c = none := by
          rw [readCount_eq h c ho, if_neg (Nat.not_le.mpr hlen)]
        rw [Ty.parse, Ty.drain, hread]
        exact ⟨rfl, rfl⟩
      · exact Ty.list_leaves (Ty.drain_leaves h c t hfree _ _ hlast) 1 (by decide) (by omega)
          (fun p hp => hp)
      · exact Ty.list_leaves (Ty.drain_leaves h c t hfree _ _ hother) 2 (by decide) (by omega)
          (fun p hp => Ty.drain_exact (t := t) hfree hp)

theorem Fields.drain_leaves (h : Host) (c : Bool) : ∀ (fs : Fields), fs.stringFree = true →
    ∀ (behind : Option Nat) (rest : Nat), fs.forgets behind rest = true →
      Leaves c (fs.drain h) (fs.parse h c) behind rest (fs.doubled + rest)
  | .nil, _ => fun _ _ hheavy => Bool.noConfusion hheavy
  | .cons t fs, hfree => by
      intro behind rest hheavy
      have hleast := Ty.least_le_doubled t
      have hleast' := Fields.least_le_doubled fs
      rw [Fields.stringFree, Bool.and_eq_true] at hfree
      rw [Fields.forgets, Bool.or_eq_true] at hheavy
      rw [Fields.doubled]
      rcases hheavy with hhead | htail
      · obtain ⟨front, room, hbound, hone⟩ := Ty.drain_leaves h c t hfree.1 _ _ hhead
        refine ⟨front, room, by omega, fun b ho hun => ?_⟩
        obtain ⟨hparse, hdrain⟩ := hone b ho hun
        rw [Fields.parse, hparse, Fields.drain, if_pos rfl]
        refine ⟨rfl, ?_⟩
        rcases hdrain.exact with ⟨hok, hblank⟩ | ⟨hok, hbehind⟩
        · exact Ty.drain_blank (t := .archive fs) hfree.2 hdrain.mode_eq hblank (Or.inl hok)
        · rw [Fields.drain_of_error h fs _ hok]
          exact ⟨hdrain.mode_eq, Or.inr ⟨hok, hbehind⟩⟩
      · obtain ⟨front, room, hbound, hone⟩ := Fields.drain_leaves h c fs hfree.2 _ _ htail
        refine ⟨List.replicate t.least 0 ++ front, room, ?_, fun b ho hun => ?_⟩
        · rw [List.length_append, List.length_replicate]
          omega
        · rw [List.append_assoc] at hun
          have hlen : (List.replicate t.least (0 : UInt8)).length = t.least :=
            List.length_replicate
          have hparse := Ty.parse_zeros h c t hfree.1 b _ ho hun
          rw [Fields.parse, hparse, Fields.drain, if_pos rfl, Ty.drainsAs h c t b _ hparse]
          exact hone _ (ordered_after ho hlen hun) (unread_after hlen hun)
end

end Exact

end MyGenSvr.Ports
