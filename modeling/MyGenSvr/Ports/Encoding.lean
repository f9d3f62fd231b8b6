import MyGenSvr.Ports.RoundTrip

/-!
# The encoding of a value

The wire form of every serializable type: scalars in their wire image, strings
with their terminator, the columns of an archive one after the other, and a
`List` as the low 16 bits of its length followed by its elements.

`Ty.sent` is what the operators write when nothing is refused.  It differs from
the encoding for one kind of value: a `List` whose length is a positive multiple
of `2 ^ 16` has the count 0, and its elements are left out (`Ty.counted`).

## Main results

* `Ty.sent_of_counted`, `Ty.counted_of_extent_le` — the bytes sent are the
  encoding exactly for the values whose lists are counted.
-/

namespace MyGenSvr.Ports

open MyGenSvr.Verified.Buffer

mutual
/-- The number of bytes of the encoding. -/
def Ty.extent : (t : Ty) → t.Val → Nat
  | .scalar k, _ => k.width
  | .string, v => List.length v + 1
  | .archive fs, v => fs.extent v
  | .list t, v => 2 + (List.map t.extent v).sum

def Fields.extent : (fs : Fields) → fs.Val → Nat
  | .nil, _ => 0
  | .cons t fs, (v, vs) => t.extent v + fs.extent vs
end

mutual
/-- The encoding. -/
def Ty.wire (h : Host) (c : Bool) : (t : Ty) → t.Val → List UInt8
  | .scalar k, v => k.wire h c v
  | .string, v => List.append v [0]
  | .archive fs, v => fs.wire h c v
  | .list t, v =>
      Scalar.uInt16.wire h c (UInt16.ofNat (List.length v)) ++
        List.flatMap (t.wire h c) v

def Fields.wire (h : Host) (c : Bool) : (fs : Fields) → fs.Val → List UInt8
  | .nil, _ => []
  | .cons t fs, (v, vs) => t.wire h c v ++ fs.wire h c vs
end

mutual
/-- What the operators write when nothing is refused: the elements of a `List`
only if the 16-bit count of them is positive. -/
def Ty.sent (h : Host) (c : Bool) : (t : Ty) → t.Val → List UInt8
  | .scalar k, v => k.wire h c v
  | .string, v => List.append v [0]
  | .archive fs, v => fs.sent h c v
  | .list t, v =>
      let size := UInt16.ofNat (List.length v)
      Scalar.uInt16.wire h c size ++
        if size > 0 then List.flatMap (t.sent h c) v else []

def Fields.sent (h : Host) (c : Bool) : (fs : Fields) → fs.Val → List UInt8
  | .nil, _ => []
  | .cons t fs, (v, vs) => t.sent h c v ++ fs.sent h c vs
end

mutual
/-- No `List` in the value has the 16-bit count 0 and elements to encode. -/
def Ty.counted : (t : Ty) → t.Val → Bool
  | .scalar _, _ => true
  | .string, _ => true
  | .archive fs, v => fs.counted v
  | .list t, v =>
      (decide (UInt16.ofNat (List.length v) > 0) || (List.map t.extent v).sum == 0) &&
        List.all v t.counted

def Fields.counted : (fs : Fields) → fs.Val → Bool
  | .nil, _ => true
  | .cons t fs, (v, vs) => t.counted v && fs.counted vs
end

/-! ## Lengths -/

section Lists

variable {α : Type} {f : α → List UInt8} {n : α → Nat}

theorem flatMap_length_eq {vs : List α} (hlen : ∀ x ∈ vs, (f x).length = n x) :
    (List.flatMap f vs).length = (List.map n vs).sum := by
  rw [List.length_flatMap, List.map_congr_left hlen]

theorem flatMap_length_le {vs : List α} (hlen : ∀ x ∈ vs, (f x).length ≤ n x) :
    (List.flatMap f vs).length ≤ (List.map n vs).sum := by
  rw [List.length_flatMap]
  exact List.sum_le_sum hlen

/-- Parts that are each no longer than they should be, and together not shorter,
all have their full length. -/
theorem le_length_of_flatMap {vs : List α} (hlen : ∀ x ∈ vs, (f x).length ≤ n x)
    (hsum : (List.map n vs).sum ≤ (List.flatMap f vs).length) :
    ∀ x ∈ vs, n x ≤ (f x).length := by
  induction vs with
  | nil =>
      intro x hx
      exact absurd hx List.not_mem_nil
  | cons x vs ih =>
      have hx := hlen x List.mem_cons_self
      have hlen' : ∀ y ∈ vs, (f y).length ≤ n y :=
        fun y hy => hlen y (List.mem_cons_of_mem _ hy)
      have hrest := flatMap_length_le hlen'
      rw [List.flatMap_cons, List.length_append, List.map_cons, List.sum_cons] at hsum
      intro y hy
      rcases List.mem_cons.mp hy with heq | htail
      · rw [heq]
        omega
      · exact ih hlen' (by omega) y htail

end Lists

section Extent

variable (h : Host) (c : Bool)

mutual
/-- The encoding has its extent. -/
theorem Ty.wire_length : ∀ (t : Ty) (v : t.Val), (t.wire h c v).length = t.extent v
  | .scalar k, v => Ports.wire_length h c k v
  | .string, v => @List.length_append _ v [0]
  | .archive fs, v => Fields.wire_length fs v
  | .list t, v => by
      have helems := @flatMap_length_eq _ (t.wire h c) t.extent v
        (fun x _ => Ty.wire_length t x)
      rw [Ty.wire, Ty.extent, List.length_append, Ports.wire_length, helems]
      rfl

theorem Fields.wire_length :
    ∀ (fs : Fields) (v : fs.Val), (fs.wire h c v).length = fs.extent v
  | .nil, _ => rfl
  | .cons t fs, (v, vs) => by
      rw [Fields.wire, Fields.extent, List.length_append, Ty.wire_length t v,
        Fields.wire_length fs vs]
end

mutual
/-- No more is sent than the encoding. -/
theorem Ty.sent_length_le :
    ∀ (t : Ty) (v : t.Val), (t.sent h c v).length ≤ t.extent v
  | .scalar k, v => Nat.le_of_eq (Ports.wire_length h c k v)
  | .string, v => Nat.le_of_eq (@List.length_append _ v [0])
  | .archive fs, v => Fields.sent_length_le fs v
  | .list t, v => by
      have helems := @flatMap_length_le _ (t.sent h c) t.extent v
        (fun x _ => Ty.sent_length_le t x)
      have hcount := Ports.wire_length h c .uInt16 (UInt16.ofNat (List.length v))
      simp only [Ty.sent, Ty.extent, List.length_append, hcount, Scalar.width]
      split
      · omega
      · rw [List.length_nil]
        omega

theorem Fields.sent_length_le :
    ∀ (fs : Fields) (v : fs.Val), (fs.sent h c v).length ≤ fs.extent v
  | .nil, _ => Nat.le_refl 0
  | .cons t fs, (v, vs) => by
      have hhead := Ty.sent_length_le t v
      have hrest := Fields.sent_length_le fs vs
      rw [Fields.sent, Fields.extent, List.length_append]
      omega
end

mutual
/-- **A counted value is sent as its encoding.** -/
theorem Ty.sent_of_counted :
    ∀ (t : Ty) (v : t.Val), t.counted v = true → t.sent h c v = t.wire h c v
  | .scalar _, _, _ => rfl
  | .string, _, _ => rfl
  | .archive fs, v, hv => Fields.sent_of_counted fs v hv
  | .list t, v, hv => by
      simp only [Ty.counted, Bool.and_eq_true, Bool.or_eq_true, decide_eq_true_eq,
        beq_iff_eq] at hv
      obtain ⟨hsize, helems⟩ := hv
      have hflat : List.flatMap (t.sent h c) v = List.flatMap (t.wire h c) v :=
        List.flatMap_congr
          (fun x hx => Ty.sent_of_counted t x (List.all_eq_true.mp helems x hx))
      simp only [Ty.sent, Ty.wire]
      rcases hsize with hpos | hzero
      · rw [if_pos hpos, hflat]
      · have hlen := @flatMap_length_eq _ (t.wire h c) t.extent v
          (fun x _ => Ty.wire_length h c t x)
        have hnil : List.flatMap (t.wire h c) v = [] :=
          List.eq_nil_of_length_eq_zero (hlen.trans hzero)
        rw [hflat, hnil, ite_self]

theorem Fields.sent_of_counted :
    ∀ (fs : Fields) (v : fs.Val), fs.counted v = true → fs.sent h c v = fs.wire h c v
  | .nil, _, _ => rfl
  | .cons t fs, (v, vs), hv => by
      rw [Fields.counted, Bool.and_eq_true] at hv
      rw [Fields.sent, Fields.wire, Ty.sent_of_counted t v hv.1,
        Fields.sent_of_counted fs vs hv.2]
end

mutual
/-- **Only counted values are sent in full.** -/
theorem Ty.counted_of_extent_le :
    ∀ (t : Ty) (v : t.Val), t.extent v ≤ (t.sent h c v).length → t.counted v = true
  | .scalar _, _, _ => rfl
  | .string, _, _ => rfl
  | .archive fs, v, hv => Fields.counted_of_extent_le fs v hv
  | .list t, v, hv => by
      have hcount := Ports.wire_length h c .uInt16 (UInt16.ofNat (List.length v))
      simp only [Ty.sent, Ty.extent, List.length_append, hcount, Scalar.width] at hv
      have hsum : (List.map t.extent v).sum ≤ (List.flatMap (t.sent h c) v).length := by
        split at hv
        · omega
        · rw [List.length_nil] at hv
          omega
      have hfull := le_length_of_flatMap (fun x _ => Ty.sent_length_le h c t x) hsum
      simp only [Ty.counted, Bool.and_eq_true, Bool.or_eq_true, decide_eq_true_eq,
        beq_iff_eq]
      constructor
      · split at hv
        · next hpos => exact Or.inl hpos
        · rw [List.length_nil] at hv
          exact Or.inr (by omega)
      · apply List.all_eq_true.mpr
        intro x hx
        exact Ty.counted_of_extent_le t x (hfull x hx)

theorem Fields.counted_of_extent_le :
    ∀ (fs : Fields) (v : fs.Val), fs.extent v ≤ (fs.sent h c v).length →
      fs.counted v = true
  | .nil, _, _ => rfl
  | .cons t fs, (v, vs), hv => by
      have hhead := Ty.sent_length_le h c t v
      have hrest := Fields.sent_length_le h c fs vs
      rw [Fields.sent, Fields.extent, List.length_append] at hv
      rw [Fields.counted, Bool.and_eq_true]
      exact ⟨Ty.counted_of_extent_le t v (by omega),
        Fields.counted_of_extent_le fs vs (by omega)⟩
end

end Extent

end MyGenSvr.Ports
