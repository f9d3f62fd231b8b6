import MyGenSvr.Ports.ListRoundTrip

/-!
# Nested lists

The loading loop of `List` reuses one local, and a `List` that is loaded appends to
what is there.  So an element that is a `List`, or an archive with one, comes back
with the elements of all those before it in front, and a value survives only where
all elements but the last have nothing to hand on (`Ty.faithful`).

## Main results

* `Ty.loadsOver` — what a load leaves in a variable that held something.
* `Ty.carry_eq_iff` — when that is the value that was sent.
-/

namespace MyGenSvr.Ports

open MyGenSvr.Verified.Buffer

mutual
/-- The type is made of scalars. -/
def Ty.scalarLeaves : Ty → Bool
  | .scalar _ => true
  | .string => false
  | .archive fs => fs.scalarLeaves
  | .list t => t.scalarLeaves

def Fields.scalarLeaves : Fields → Bool
  | .nil => true
  | .cons t fs => t.scalarLeaves && fs.scalarLeaves
end

mutual
/-- Every `List` in the value has at most 65535 elements. -/
def Ty.short : (t : Ty) → t.Val → Bool
  | .scalar _, _ => true
  | .string, _ => true
  | .archive fs, v => fs.short v
  | .list t, v => decide (List.length v ≤ 65535) && List.all v t.short

def Fields.short : (fs : Fields) → fs.Val → Bool
  | .nil, _ => true
  | .cons t fs, (v, vs) => t.short v && fs.short vs
end

mutual
/-- The value has no elements to hand on: it is an empty `List`, or all that it has
among its columns are empty. -/
def Ty.hollow : (t : Ty) → t.Val → Bool
  | .scalar _, _ => true
  | .string, _ => true
  | .archive fs, v => fs.hollow v
  | .list _, v => List.isEmpty v

def Fields.hollow : (fs : Fields) → fs.Val → Bool
  | .nil, _ => true
  | .cons t fs, (v, vs) => t.hollow v && fs.hollow vs
end

mutual
/-- In every `List` of the value all elements but the last are hollow. -/
def Ty.faithful : (t : Ty) → t.Val → Bool
  | .scalar _, _ => true
  | .string, _ => true
  | .archive fs, v => fs.faithful v
  | .list t, v => List.all (List.dropLast v) t.hollow && List.all v t.faithful

def Fields.faithful : (fs : Fields) → fs.Val → Bool
  | .nil, _ => true
  | .cons t fs, (v, vs) => t.faithful v && fs.faithful vs
end

mutual
/-- What a variable that held `v` holds after `x` was loaded into it. -/
def Ty.carry (h : Host) : (t : Ty) → t.Val → t.Val → t.Val
  | .scalar _, _, x => x
  | .string, _, x => x
  | .archive fs, v, x => fs.carry h v x
  | .list t, v, x => List.append v (carryLoop (t.carry h) (t.fresh h) x)

def Fields.carry (h : Host) : (fs : Fields) → fs.Val → fs.Val → fs.Val
  | .nil, _, _ => ()
  | .cons t fs, (v, vs), (x, xs) => (t.carry h v x, fs.carry h vs xs)
end

/-! ## What a load leaves -/

section Carry

variable (h : Host)

mutual
/-- A value of short lists is sent as its encoding. -/
theorem Ty.counted_of_short :
    ∀ (t : Ty) (v : t.Val), t.short v = true → t.counted v = true
  | .scalar _, _, _ => rfl
  | .string, _, _ => rfl
  | .archive fs, v, hv => Fields.counted_of_short fs v hv
  | .list t, v, hv => by
      simp only [Ty.short, Bool.and_eq_true, decide_eq_true_eq] at hv
      simp only [Ty.counted, Bool.and_eq_true, Bool.or_eq_true, decide_eq_true_eq, beq_iff_eq]
      refine ⟨?_, List.all_eq_true.mpr fun x hx =>
        Ty.counted_of_short t x (List.all_eq_true.mp hv.2 x hx)⟩
      cases v with
      | nil => exact Or.inr rfl
      | cons x xs =>
          apply Or.inl
          rw [gt_iff_lt, UInt16.lt_iff_toNat_lt,
            UInt16.toNat_ofNat_of_lt' (Nat.lt_of_le_of_lt hv.1 (by decide))]
          exact Nat.succ_pos _

theorem Fields.counted_of_short :
    ∀ (fs : Fields) (v : fs.Val), fs.short v = true → fs.counted v = true
  | .nil, _, _ => rfl
  | .cons t fs, (v, vs), hv => by
      rw [Fields.short, Bool.and_eq_true] at hv
      rw [Fields.counted, Bool.and_eq_true]
      exact ⟨Ty.counted_of_short t v hv.1, Fields.counted_of_short fs vs hv.2⟩
end

mutual
/-- **What a load leaves** of an encoding that is all there. -/
theorem Ty.loadsOver :
    ∀ (t : Ty) (x : t.Val), t.scalarLeaves = true → t.short x = true →
      LoadsOver (t.get h) (t.wire h) (t.carry h) x
  | .scalar k, x, _, _ => scalar_loadsOver h k x
  | .string, _, hleaves, _ => absurd hleaves Bool.false_ne_true
  | .archive fs, x, hleaves, hshort => Fields.loadsOver fs x hleaves hshort
  | .list t, x, hleaves, hshort => by
      simp only [Ty.short, Bool.and_eq_true, decide_eq_true_eq] at hshort
      have hget : ∀ y ∈ (show List t.Val from x),
          LoadsOver (t.get h) (t.wire h) (t.carry h) y :=
        fun y hy => Ty.loadsOver t y hleaves (List.all_eq_true.mp hshort.2 y hy)
      intro s v rest ho _ hun
      obtain ⟨hload, hvalue⟩ := @LoadsOver.list_load h t s (t.carry h) x hget hshort.1 ho v
        rest hun
      refine ⟨?_, hvalue⟩
      simp only [Ty.wire, List.length_append, Ports.wire_length]
      exact hload

theorem Fields.loadsOver :
    ∀ (fs : Fields) (x : fs.Val), fs.scalarLeaves = true → fs.short x = true →
      LoadsOver (fs.load h) (fs.wire h) (fs.carry h) x
  | .nil, _, _, _ => by
      intro s _ rest _ herr _
      exact ⟨Loaded.refl herr, rfl⟩
  | .cons t fs, (x, xs), hleaves, hshort => by
      rw [Fields.scalarLeaves, Bool.and_eq_true] at hleaves
      rw [Fields.short, Bool.and_eq_true] at hshort
      rintro s ⟨v, vs⟩ rest ho herr hun
      simp only [Fields.wire, List.append_assoc] at hun
      obtain ⟨hhead, hvalue⟩ := Ty.loadsOver t x hleaves.1 hshort.1 s v _ ho herr hun
      obtain ⟨ho', hun'⟩ := hhead.rest ho hun
      rw [← hhead.mode_eq] at hun'
      obtain ⟨hrest, hvalues⟩ := Fields.loadsOver fs xs hleaves.2 hshort.2
        (t.get h s v).1 vs rest ho' hhead.noError hun'
      rw [hhead.mode_eq] at hrest
      simp only [Fields.wire, List.length_append]
      rw [Fields.load, entryGet_of_ok _ herr, Fields.carry]
      exact ⟨hhead.trans hrest, Prod.ext hvalue hvalues⟩
end

theorem carryLoop_length {α : Type} (carry : α → α → α) (t : α) (xs : List α) :
    (carryLoop carry t xs).length = xs.length := by
  induction xs generalizing t with
  | nil => rfl
  | cons x xs ih => rw [carryLoop, List.length_cons, ih, List.length_cons]

/-- Elements survive in turn exactly if each would alone and each hands on nothing. -/
theorem carryLoop_eq_iff {α : Type} {carry : α → α → α} {hollow faithful : α → Bool}
    {xs : List α}
    (hiff : ∀ v, ∀ x ∈ xs, carry v x = x ↔ hollow v = true ∧ faithful x = true) (t : α)
    (ht : hollow t = true) :
    carryLoop carry t xs = xs ↔
      (∀ x ∈ xs.dropLast, hollow x = true) ∧ ∀ x ∈ xs, faithful x = true := by
  induction xs generalizing t with
  | nil => simp [carryLoop]
  | cons x xs ih =>
      have hhead : carry t x = x ↔ faithful x = true := by
        rw [hiff t x List.mem_cons_self]
        simp only [ht, true_and]
      have htail : ∀ v, ∀ y ∈ xs, carry v y = y ↔ hollow v = true ∧ faithful y = true :=
        fun v y hy => hiff v y (List.mem_cons_of_mem _ hy)
      rw [carryLoop, List.cons.injEq, hhead, List.forall_mem_cons]
      cases xs with
      | nil => simp [carryLoop]
      | cons y ys =>
          rw [List.dropLast_cons_cons, List.forall_mem_cons]
          constructor
          · rintro ⟨hx, hrest⟩
            have hself : carry t x = x := hhead.mpr hx
            rw [hself] at hrest
            have hhollow : hollow x = true := by
              rw [carryLoop, List.cons.injEq] at hrest
              exact ((htail x y List.mem_cons_self).mp hrest.1).1
            obtain ⟨hlast, hall⟩ := (ih htail x hhollow).mp hrest
            exact ⟨⟨hhollow, hlast⟩, hx, hall⟩
          · rintro ⟨⟨hhollow, hlast⟩, hx, hall⟩
            have hself : carry t x = x := hhead.mpr hx
            rw [hself]
            exact ⟨hx, (ih htail x hhollow).mpr ⟨hlast, hall⟩⟩

theorem append_carryLoop_eq_iff {α : Type} {carry : α → α → α} {hollow faithful : α → Bool}
    (hiff : ∀ v x, carry v x = x ↔ hollow v = true ∧ faithful x = true) (t : α)
    (ht : hollow t = true) (vs xs : List α) :
    List.append vs (carryLoop carry t xs) = xs ↔
      vs.isEmpty = true ∧ (xs.dropLast.all hollow && xs.all faithful) = true := by
  have hlen := carryLoop_length carry t xs
  rw [Bool.and_eq_true, List.all_eq_true, List.all_eq_true,
    ← carryLoop_eq_iff (fun v x _ => hiff v x) t ht, List.isEmpty_iff, List.append_eq]
  constructor
  · intro heq
    have hcount := congrArg List.length heq
    rw [List.length_append, hlen] at hcount
    have hnil : vs = [] := List.eq_nil_of_length_eq_zero (by omega)
    rw [hnil] at heq
    exact ⟨hnil, heq⟩
  · rintro ⟨rfl, heq⟩
    exact heq

mutual
theorem Ty.fresh_hollow : ∀ t : Ty, t.hollow (t.fresh h) = true
  | .scalar _ => rfl
  | .string => rfl
  | .archive fs => Fields.fresh_hollow fs
  | .list _ => rfl

theorem Fields.fresh_hollow : ∀ fs : Fields, fs.hollow (fs.fresh h) = true
  | .nil => rfl
  | .cons t fs => by
      rw [Fields.fresh, Fields.hollow, Bool.and_eq_true]
      exact ⟨Ty.fresh_hollow t, Fields.fresh_hollow fs⟩
end

mutual
/-- **When a load leaves what was sent.** -/
theorem Ty.carry_eq_iff :
    ∀ (t : Ty) (v x : t.Val), t.scalarLeaves = true →
      (t.carry h v x = x ↔ t.hollow v = true ∧ t.faithful x = true)
  | .scalar _, _, _, _ => iff_of_true rfl ⟨rfl, rfl⟩
  | .string, _, _, hleaves => absurd hleaves Bool.false_ne_true
  | .archive fs, v, x, hleaves => Fields.carry_eq_iff fs v x hleaves
  | .list t, v, x, hleaves =>
      append_carryLoop_eq_iff (fun w y => Ty.carry_eq_iff t w y hleaves) (t.fresh h)
        (Ty.fresh_hollow h t) v x

theorem Fields.carry_eq_iff :
    ∀ (fs : Fields) (v x : fs.Val), fs.scalarLeaves = true →
      (fs.carry h v x = x ↔ fs.hollow v = true ∧ fs.faithful x = true)
  | .nil, _, _, _ => iff_of_true rfl ⟨rfl, rfl⟩
  | .cons t fs, (v, vs), (x, xs), hleaves => by
      rw [Fields.scalarLeaves, Bool.and_eq_true] at hleaves
      have hpair : (Fields.cons t fs).carry h (v, vs) (x, xs) = (x, xs) ↔
          t.carry h v x = x ∧ fs.carry h vs xs = xs := Prod.mk_inj
      rw [hpair, Ty.carry_eq_iff t v x hleaves.1, Fields.carry_eq_iff fs vs xs hleaves.2,
        Fields.hollow, Fields.faithful, Bool.and_eq_true, Bool.and_eq_true]
      exact and_and_and_comm
end

end Carry

end MyGenSvr.Ports
