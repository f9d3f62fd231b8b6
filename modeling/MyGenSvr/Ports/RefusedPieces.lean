import MyGenSvr.Ports.SaveErrors

/-!
# Refused pieces of a save

After a refusal a save skips the columns that follow, out to the next element of
a `List` whose elements are not archives.  That element is offered, and once a
piece is accepted the error code is 0 and everything behind it is offered too.
A refusal can be forgotten only if all this finds room where the piece did not,
so only if the piece is longer than all this together (`Fields.heavy`).

## Main results

* `Fields.fill_refused` — a save without heavy pieces that does not fit ends with
  a refused one.
* `Fields.fill_forgotten` — for a value with a heavy piece there is a room in which
  its refusal is forgotten.
-/

namespace MyGenSvr.Ports

/-! ## Heavy pieces -/

/-- The type of an archive. -/
def Ty.isArchive : Ty → Bool
  | .archive _ => true
  | _ => false

/-- A piece is longer than what is offered after its refusal, if anything is. -/
def outweighs (length : Nat) : Option Nat → Bool
  | some behind => decide (behind < length)
  | none => false

/-- What is offered after a refusal in front of the elements `vs` of a `List`: archives
are skipped, the first element that is not one is offered and all that follows. -/
def Ty.behindIn (t : Ty) (behind : Option Nat) (rest : Nat) (vs : List t.Val) : Option Nat :=
  if t.isArchive || vs.isEmpty then behind else some ((List.map t.extent vs).sum + rest)

/-- Some element is heavy, given those that follow it. -/
def heavyIn {α : Type} (heavy : α → List α → Bool) : List α → Bool
  | [] => false
  | v :: vs => heavy v vs || heavyIn heavy vs

mutual
/-- A piece of the value outweighs what is offered after its refusal.  Behind the value
there are `rest` bytes; `behind` of them are offered if the error code is not 0. -/
def Ty.heavy : (t : Ty) → t.Val → Option Nat → Nat → Bool
  | .scalar k, _, behind, _ => outweighs k.width behind
  | .string, v, behind, _ => outweighs (List.length v + 1) behind
  | .archive fs, v, behind, rest => fs.heavy v behind rest
  | .list t, v, behind, rest =>
      outweighs Scalar.uInt16.width (t.behindIn behind rest v) ||
        heavyIn (fun x xs => t.heavy x (t.behindIn behind rest xs)
          ((List.map t.extent xs).sum + rest)) v

def Fields.heavy : (fs : Fields) → fs.Val → Option Nat → Nat → Bool
  | .nil, _, _, _ => false
  | .cons t fs, (v, vs), behind, rest =>
      t.heavy v behind (fs.extent vs + rest) || fs.heavy vs behind rest
end

mutual
/-- No piece of the value is longer than `n` bytes. -/
def Ty.within (n : Nat) : (t : Ty) → t.Val → Bool
  | .scalar k, _ => decide (k.width ≤ n)
  | .string, v => decide (List.length v + 1 ≤ n)
  | .archive fs, v => fs.within n v
  | .list t, v => decide (Scalar.uInt16.width ≤ n) && List.all v (t.within n)

def Fields.within (n : Nat) : (fs : Fields) → fs.Val → Bool
  | .nil, _ => true
  | .cons t fs, (v, vs) => t.within n v && fs.within n vs
end

/-! ## Room -/

/-- A filling of a buffer of `size` bytes with `room` bytes left. -/
structure Filling.Has (p : Filling) (size : UInt32) (room : Nat) : Prop where
  size_eq : p.size = size
  cursor_add : p.cursor + room = size.toNat

section Offer

variable {p : Filling} {size : UInt32} {room length : Nat}

/-- The bounds test is right about pieces that are no longer than the buffer. -/
theorem Filling.Has.offer_iff (hp : p.Has size room) (hlength : length ≤ size.toNat) :
    UInt32.ofNat p.cursor > p.size - UInt32.ofNat length ↔ room < length := by
  have hsum := hp.cursor_add
  have hsize := size.toNat_lt
  have hcursor : (UInt32.ofNat p.cursor).toNat = p.cursor := toNat_ofNat32 (by omega)
  have hlen : (UInt32.ofNat length).toNat = length := toNat_ofNat32 (by omega)
  have hsub : (size - UInt32.ofNat length).toNat = size.toNat - length := by
    rw [UInt32.toNat_sub_of_le _ _ (UInt32.le_iff_toNat_le.mpr (by omega)), hlen]
  rw [hp.size_eq, gt_iff_lt, UInt32.lt_iff_toNat_lt, hsub, hcursor]
  omega

theorem Filling.Has.offer_accepted (hp : p.Has size room) (hlength : length ≤ size.toNat)
    (hfit : length ≤ room) :
    (p.offer (UInt32.ofNat length)).Has size (room - length) ∧
      (p.offer (UInt32.ofNat length)).ok = true := by
  have hsum := hp.cursor_add
  have hsize := size.toNat_lt
  have hlen : (UInt32.ofNat length).toNat = length := toNat_ofNat32 (by omega)
  have htest : ¬ UInt32.ofNat p.cursor > p.size - UInt32.ofNat length := by
    rw [hp.offer_iff hlength]
    omega
  rw [Filling.offer, if_neg htest]
  refine ⟨⟨hp.size_eq, ?_⟩, rfl⟩
  show p.cursor + (UInt32.ofNat length).toNat + (room - length) = size.toNat
  omega

theorem Filling.Has.offer_refused (hp : p.Has size room) (hlength : length ≤ size.toNat)
    (hfull : room < length) :
    (p.offer (UInt32.ofNat length)).Has size room ∧
      (p.offer (UInt32.ofNat length)).ok = false := by
  rw [Filling.offer, if_pos ((hp.offer_iff hlength).mpr hfull)]
  exact ⟨⟨hp.size_eq, hp.cursor_add⟩, rfl⟩

end Offer

/-- Archives are skipped while an error is pending. -/
theorem Fields.fill_of_error :
    ∀ (fs : Fields) (v : fs.Val) (p : Filling), p.ok = false → fs.fill v p = p
  | .nil, _, _, _ => rfl
  | .cons t fs, (v, vs), p, hp => by
      rw [Fields.fill, if_neg (by rw [hp]; decide)]
      exact Fields.fill_of_error fs vs p hp

theorem Ty.fill_of_error {t : Ty} (ht : t.isArchive = true) (v : t.Val) {p : Filling}
    (hp : p.ok = false) : t.fill v p = p := by
  cases t with
  | archive fs => exact Fields.fill_of_error fs v p hp
  | scalar k => exact Bool.noConfusion ht
  | string => exact Bool.noConfusion ht
  | list t => exact Bool.noConfusion ht

/-- Only archives can be empty. -/
theorem Ty.extent_pos {t : Ty} (ht : t.isArchive = false) (v : t.Val) : 0 < t.extent v := by
  cases t with
  | archive fs => exact Bool.noConfusion ht
  | scalar k =>
      show 0 < k.width
      cases k <;> decide
  | string => exact Nat.succ_pos _
  | list t =>
      rw [Ty.extent]
      omega

section Behind

variable {t : Ty} {behind : Option Nat} {rest : Nat}

theorem behindIn_archive (ht : t.isArchive = true) (vs : List t.Val) :
    t.behindIn behind rest vs = behind := by
  rw [Ty.behindIn, ht, Bool.true_or, if_pos rfl]

theorem behindIn_nil : t.behindIn behind rest [] = behind := by
  rw [Ty.behindIn, List.isEmpty_nil, Bool.or_true, if_pos rfl]

theorem behindIn_cons (ht : t.isArchive = false) (v : t.Val) (vs : List t.Val) :
    t.behindIn behind rest (v :: vs) =
      some (t.extent v + (List.map t.extent vs).sum + rest) := by
  rw [Ty.behindIn, ht, List.isEmpty_cons, Bool.or_self, if_neg Bool.false_ne_true,
    List.map_cons, List.sum_cons]

/-- A `List` that announces no elements has none to offer. -/
theorem behindIn_uncounted {vs : List t.Val} (hzero : (List.map t.extent vs).sum = 0) :
    t.behindIn behind rest vs = behind := by
  cases vs with
  | nil => exact behindIn_nil
  | cons v vs =>
      cases ht : t.isArchive with
      | true => exact behindIn_archive ht _
      | false =>
          have hpos := Ty.extent_pos ht v
          rw [List.map_cons, List.sum_cons] at hzero
          omega

end Behind

/-! ## Without heavy pieces a refusal stays -/

/-- Something was refused, and what is offered next does not all find room. -/
def Filling.Lost (size : UInt32) (behind : Option Nat) (rest : Nat) (p : Filling) : Prop :=
  ∃ room, p.Has size room ∧
    ((p.ok = true ∧ room < rest) ∨ (p.ok = false ∧ ∀ n, behind = some n → room < n))

section Lost

variable {size : UInt32} {behind : Option Nat} {rest : Nat}

theorem Filling.Has.offer_lost {p : Filling} {room length : Nat} (hp : p.Has size room)
    (hlength : length ≤ size.toNat) (hlight : outweighs length behind = false)
    (hroom : room < length + rest) :
    (p.offer (UInt32.ofNat length)).Lost size behind rest := by
  by_cases hfit : length ≤ room
  · obtain ⟨hhas, hok⟩ := hp.offer_accepted hlength hfit
    exact ⟨_, hhas, Or.inl ⟨hok, by omega⟩⟩
  · obtain ⟨hhas, hok⟩ := hp.offer_refused hlength (Nat.lt_of_not_le hfit)
    refine ⟨_, hhas, Or.inr ⟨hok, ?_⟩⟩
    rintro n rfl
    have hle : length ≤ n := Nat.le_of_not_lt (of_decide_eq_false hlight)
    omega

/-- The value `v` of type `t` loses what a save has already lost, or loses now. -/
def Ty.Loses (size : UInt32) (t : Ty) (v : t.Val) : Prop :=
  ∀ (behind : Option Nat) (rest : Nat) (p : Filling) (room : Nat),
    t.heavy v behind rest = false → p.Has size room → room < t.extent v + rest →
    p.ok = true ∨ t.isArchive = false → (t.fill v p).Lost size behind rest

/-- The loop of a `List` over elements that lose. -/
theorem Ty.foldl_lost {t : Ty} (vs : List t.Val) :
    ∀ p : Filling, (∀ x ∈ vs, t.Loses size x) →
      heavyIn (fun x xs => t.heavy x (t.behindIn behind rest xs)
        ((List.map t.extent xs).sum + rest)) vs = false →
      p.Lost size (t.behindIn behind rest vs) ((List.map t.extent vs).sum + rest) →
      (List.foldl (fun p x => t.fill x p) p vs).Lost size behind rest := by
  induction vs with
  | nil =>
      intro p _ _ hp
      rw [behindIn_nil, List.map_nil, List.sum_nil, Nat.zero_add] at hp
      exact hp
  | cons x xs ih =>
      intro p hall hlight hp
      rw [heavyIn, Bool.or_eq_false_iff] at hlight
      have hx := hall x List.mem_cons_self
      have hxs : ∀ y ∈ xs, t.Loses size y := fun y hy => hall y (List.mem_cons_of_mem _ hy)
      obtain ⟨room, hhas, ⟨hok, hroom⟩ | ⟨hok, hroom⟩⟩ := hp
      · rw [List.map_cons, List.sum_cons, Nat.add_assoc] at hroom
        exact ih _ hxs hlight.2 (hx _ _ p room hlight.1 hhas hroom (Or.inl hok))
      · cases ht : t.isArchive with
        | true =>
            rw [List.foldl_cons, Ty.fill_of_error ht x hok]
            rw [behindIn_archive ht] at hroom
            refine ih p hxs hlight.2 ⟨room, hhas, Or.inr ⟨hok, ?_⟩⟩
            rwa [behindIn_archive ht]
        | false =>
            have hlt := hroom _ (behindIn_cons ht x xs)
            rw [Nat.add_assoc] at hlt
            exact ih _ hxs hlight.2 (hx _ _ p room hlight.1 hhas hlt (Or.inr ht))

mutual
/-- **A loss is not made up for** by a value without heavy pieces. -/
theorem Ty.fill_lost : ∀ (t : Ty) (v : t.Val), t.within size.toNat v = true →
    t.counted v = true → t.Loses size v
  | .scalar _, _, hwithin, _ => fun _ _ _ _ hlight hp hroom _ =>
      hp.offer_lost (of_decide_eq_true hwithin) hlight hroom
  | .string, _, hwithin, _ => fun _ _ _ _ hlight hp hroom _ =>
      hp.offer_lost (of_decide_eq_true hwithin) hlight hroom
  | .archive fs, v, hwithin, hcounted => fun behind rest p room hlight hp hroom hok =>
      Fields.fill_lost fs v hwithin hcounted behind rest p room hlight hp hroom
        (hok.resolve_right (Bool.noConfusion ·))
  | .list t, v, hwithin, hcounted => by
      intro behind rest p room hlight hp hroom _
      rw [Ty.within, Bool.and_eq_true, decide_eq_true_eq] at hwithin
      rw [Ty.counted, Bool.and_eq_true, Bool.or_eq_true, decide_eq_true_eq,
        beq_iff_eq] at hcounted
      rw [Ty.heavy, Bool.or_eq_false_iff] at hlight
      rw [Ty.extent, Nat.add_assoc] at hroom
      have hcount := hp.offer_lost hwithin.1 hlight.1 hroom
      have helems : ∀ x, List.Mem x v → t.Loses size x := fun x hx =>
        Ty.fill_lost t x (List.all_eq_true.mp hwithin.2 x hx)
          (List.all_eq_true.mp hcounted.2 x hx)
      simp only [Ty.fill]
      split
      · exact Ty.foldl_lost v _ helems hlight.2 hcount
      · next hsize =>
          have hzero := hcounted.1.resolve_left hsize
          rw [behindIn_uncounted hzero, hzero, Nat.zero_add] at hcount
          exact hcount

theorem Fields.fill_lost : ∀ (fs : Fields) (v : fs.Val), fs.within size.toNat v = true →
    fs.counted v = true → ∀ (behind : Option Nat) (rest : Nat) (p : Filling) (room : Nat),
      fs.heavy v behind rest = false → p.Has size room → room < fs.extent v + rest →
      p.ok = true → (fs.fill v p).Lost size behind rest
  | .nil, _, _, _ => by
      intro behind rest p room _ hp hroom hok
      rw [Fields.extent, Nat.zero_add] at hroom
      exact ⟨room, hp, Or.inl ⟨hok, hroom⟩⟩
  | .cons t fs, (v, vs), hwithin, hcounted => by
      intro behind rest p room hlight hp hroom hok
      rw [Fields.within, Bool.and_eq_true] at hwithin
      rw [Fields.counted, Bool.and_eq_true] at hcounted
      rw [Fields.heavy, Bool.or_eq_false_iff] at hlight
      rw [Fields.extent, Nat.add_assoc] at hroom
      rw [Fields.fill, if_pos hok]
      have hhead := Ty.fill_lost t v hwithin.1 hcounted.1 behind _ p room hlight.1 hp hroom
        (Or.inl hok)
      obtain ⟨room', hp', ⟨hok', hroom'⟩ | ⟨hok', hroom'⟩⟩ := hhead
      · exact Fields.fill_lost fs vs hwithin.2 hcounted.2 behind rest _ room' hlight.2 hp' hroom'
          hok'
      · rw [Fields.fill_of_error fs vs _ hok']
        exact ⟨room', hp', Or.inr ⟨hok', hroom'⟩⟩
end

end Lost

/-- What is offered next fills the buffer exactly. -/
def Filling.Exact (size : UInt32) (behind : Option Nat) (rest : Nat) (p : Filling) : Prop :=
  (p.ok = true ∧ p.Has size rest) ∨ (p.ok = false ∧ ∃ n, behind = some n ∧ p.Has size n)

section Exact

variable {size : UInt32} {behind : Option Nat} {rest : Nat}

/-- All of the value `v` of type `t` is accepted where it fits. -/
def Ty.FillsUp (size : UInt32) (t : Ty) (v : t.Val) : Prop :=
  ∀ (p : Filling) (rest : Nat), p.Has size (t.extent v + rest) →
    p.ok = true ∨ t.isArchive = false → (t.fill v p).ok = true ∧ (t.fill v p).Has size rest

theorem Filling.Has.offer_all {p : Filling} {length : Nat}
    (hp : p.Has size (length + rest)) (hlength : length ≤ size.toNat) :
    (p.offer (UInt32.ofNat length)).ok = true ∧
      (p.offer (UInt32.ofNat length)).Has size rest := by
  obtain ⟨hhas, hok⟩ := hp.offer_accepted hlength (Nat.le_add_right length rest)
  rw [Nat.add_sub_cancel_left] at hhas
  exact ⟨hok, hhas⟩

/-- The loop of a `List` over elements that fit, after a refusal or none. -/
theorem Ty.foldl_exact {t : Ty} (vs : List t.Val) :
    ∀ p : Filling, (∀ x ∈ vs, t.FillsUp size x) →
      p.Exact size (t.behindIn behind rest vs) ((List.map t.extent vs).sum + rest) →
      (List.foldl (fun p x => t.fill x p) p vs).Exact size behind rest := by
  induction vs with
  | nil =>
      intro p _ hp
      rw [behindIn_nil, List.map_nil, List.sum_nil, Nat.zero_add] at hp
      exact hp
  | cons x xs ih =>
      intro p hall hp
      have hx := hall x List.mem_cons_self
      have hxs : ∀ y ∈ xs, t.FillsUp size y := fun y hy => hall y (List.mem_cons_of_mem _ hy)
      rcases hp with ⟨hok, hhas⟩ | ⟨hok, n, hbehind, hhas⟩
      · rw [List.map_cons, List.sum_cons, Nat.add_assoc] at hhas
        exact ih _ hxs (Or.inl (hx p _ hhas (Or.inl hok)))
      · cases ht : t.isArchive with
        | true =>
            rw [List.foldl_cons, Ty.fill_of_error ht x hok]
            rw [behindIn_archive ht] at hbehind
            refine ih p hxs (Or.inr ⟨hok, n, ?_, hhas⟩)
            rw [behindIn_archive ht, hbehind]
        | false =>
            rw [behindIn_cons ht, Option.some.injEq, Nat.add_assoc] at hbehind
            rw [← hbehind] at hhas
            exact ih _ hxs (Or.inl (hx p _ hhas (Or.inr ht)))

mutual
/-- **What fits is accepted.** -/
theorem Ty.fill_fits : ∀ (t : Ty) (v : t.Val), t.within size.toNat v = true →
    t.counted v = true → t.FillsUp size v
  | .scalar _, _, hwithin, _ => fun _ _ hp _ => hp.offer_all (of_decide_eq_true hwithin)
  | .string, _, hwithin, _ => fun _ _ hp _ => hp.offer_all (of_decide_eq_true hwithin)
  | .archive fs, v, hwithin, hcounted => fun p rest hp hok =>
      Fields.fill_fits fs v hwithin hcounted p rest hp
        (hok.resolve_right (Bool.noConfusion ·))
  | .list t, v, hwithin, hcounted => by
      intro p rest hp _
      rw [Ty.within, Bool.and_eq_true, decide_eq_true_eq] at hwithin
      rw [Ty.counted, Bool.and_eq_true, Bool.or_eq_true, decide_eq_true_eq,
        beq_iff_eq] at hcounted
      rw [Ty.extent, Nat.add_assoc] at hp
      have hcount := hp.offer_all hwithin.1
      have helems : ∀ x, List.Mem x v → t.FillsUp size x := fun x hx =>
        Ty.fill_fits t x (List.all_eq_true.mp hwithin.2 x hx)
          (List.all_eq_true.mp hcounted.2 x hx)
      simp only [Ty.fill]
      split
      · rcases @Ty.foldl_exact size none rest t v _ helems (Or.inl hcount) with
          hall | ⟨-, n, hnone, -⟩
        · exact hall
        · exact absurd hnone (by simp)
      · next hsize =>
          rw [hcounted.1.resolve_left hsize, Nat.zero_add] at hcount
          exact hcount

theorem Fields.fill_fits : ∀ (fs : Fields) (v : fs.Val), fs.within size.toNat v = true →
    fs.counted v = true → ∀ (p : Filling) (rest : Nat), p.Has size (fs.extent v + rest) →
      p.ok = true → (fs.fill v p).ok = true ∧ (fs.fill v p).Has size rest
  | .nil, _, _, _ => by
      intro p rest hp hok
      rw [Fields.extent, Nat.zero_add] at hp
      exact ⟨hok, hp⟩
  | .cons t fs, (v, vs), hwithin, hcounted => by
      intro p rest hp hok
      rw [Fields.within, Bool.and_eq_true] at hwithin
      rw [Fields.counted, Bool.and_eq_true] at hcounted
      rw [Fields.extent, Nat.add_assoc] at hp
      rw [Fields.fill, if_pos hok]
      obtain ⟨hok', hp'⟩ := Ty.fill_fits t v hwithin.1 hcounted.1 p _ hp (Or.inl hok)
      exact Fields.fill_fits fs vs hwithin.2 hcounted.2 _ rest hp' hok'
end

/-- In some room, too small for the value and what follows it, all that is offered after
one refusal is accepted. -/
def Ty.Forgets (size : UInt32) (t : Ty) (v : t.Val) : Prop :=
  ∀ (behind : Option Nat) (rest : Nat), t.heavy v behind rest = true →
    ∃ room < t.extent v + rest, ∀ p : Filling, p.Has size room → p.ok = true →
      (t.fill v p).Exact size behind rest

theorem offer_forgets {length : Nat} (hlength : length ≤ size.toNat)
    (hheavy : outweighs length behind = true) :
    ∃ room < length, ∀ p : Filling, p.Has size room →
      (p.offer (UInt32.ofNat length)).Exact size behind rest := by
  cases behind with
  | none => exact Bool.noConfusion hheavy
  | some n =>
      have hlt : n < length := of_decide_eq_true hheavy
      refine ⟨n, hlt, fun p hp => ?_⟩
      obtain ⟨hhas, hok⟩ := hp.offer_refused hlength hlt
      exact Or.inr ⟨hok, n, rfl, hhas⟩

/-- The loop of a `List` with a heavy element. -/
theorem Ty.foldl_forgets {t : Ty} (vs : List t.Val) :
    (∀ x ∈ vs, t.FillsUp size x) → (∀ x ∈ vs, t.Forgets size x) →
    heavyIn (fun x xs => t.heavy x (t.behindIn behind rest xs)
      ((List.map t.extent xs).sum + rest)) vs = true →
    ∃ room < (List.map t.extent vs).sum + rest, ∀ p : Filling, p.Has size room →
      p.ok = true → (List.foldl (fun p x => t.fill x p) p vs).Exact size behind rest := by
  induction vs with
  | nil => exact fun _ _ hheavy => Bool.noConfusion hheavy
  | cons x xs ih =>
      intro hfills hforgets hheavy
      have hxs : ∀ y ∈ xs, t.FillsUp size y := fun y hy => hfills y (List.mem_cons_of_mem _ hy)
      rw [heavyIn, Bool.or_eq_true] at hheavy
      rw [List.map_cons, List.sum_cons, Nat.add_assoc]
      rcases hheavy with hhead | htail
      · obtain ⟨room, hlt, hroom⟩ := hforgets x List.mem_cons_self _ _ hhead
        exact ⟨room, hlt, fun p hp hok => Ty.foldl_exact xs _ hxs (hroom p hp hok)⟩
      · obtain ⟨room, hlt, hroom⟩ :=
          ih hxs (fun y hy => hforgets y (List.mem_cons_of_mem _ hy)) htail
        refine ⟨t.extent x + room, by omega, fun p hp hok => ?_⟩
        obtain ⟨hok', hp'⟩ := hfills x List.mem_cons_self p room hp (Or.inl hok)
        exact hroom _ hp' hok'

mutual
/-- A heavy piece is a piece. -/
theorem Ty.extent_pos_of_heavy : ∀ (t : Ty) (v : t.Val) (behind : Option Nat) (rest : Nat),
    t.heavy v behind rest = true → 0 < t.extent v
  | .scalar _, v, _, _, _ => Ty.extent_pos rfl v
  | .string, v, _, _, _ => Ty.extent_pos rfl v
  | .archive fs, v, behind, rest, hheavy => Fields.extent_pos_of_heavy fs v behind rest hheavy
  | .list _, v, _, _, _ => Ty.extent_pos rfl v

theorem Fields.extent_pos_of_heavy :
    ∀ (fs : Fields) (v : fs.Val) (behind : Option Nat) (rest : Nat),
      fs.heavy v behind rest = true → 0 < fs.extent v
  | .nil, _, _, _, hheavy => Bool.noConfusion hheavy
  | .cons t fs, (v, vs), behind, rest, hheavy => by
      rw [Fields.heavy, Bool.or_eq_true] at hheavy
      rw [Fields.extent]
      rcases hheavy with hhead | htail
      · have hpos := Ty.extent_pos_of_heavy t v _ _ hhead
        omega
      · have hpos := Fields.extent_pos_of_heavy fs vs _ _ htail
        omega
end

/-- Elements of which one is heavy are not empty. -/
theorem sum_pos_of_heavyIn {t : Ty} (vs : List t.Val)
    (hheavy : heavyIn (fun x xs => t.heavy x (t.behindIn behind rest xs)
      ((List.map t.extent xs).sum + rest)) vs = true) : 0 < (List.map t.extent vs).sum := by
  induction vs with
  | nil => exact Bool.noConfusion hheavy
  | cons x xs ih =>
      rw [heavyIn, Bool.or_eq_true] at hheavy
      rw [List.map_cons, List.sum_cons]
      rcases hheavy with hhead | htail
      · have hpos := Ty.extent_pos_of_heavy t x _ _ hhead
        omega
      · have hpos := ih htail
        omega

mutual
/-- **A heavy piece can be forgotten.** -/
theorem Ty.fill_forgets : ∀ (t : Ty) (v : t.Val), t.within size.toNat v = true →
    t.counted v = true → t.Forgets size v
  | .scalar _, _, hwithin, _ => by
      intro behind rest hheavy
      obtain ⟨room, hlt, hroom⟩ := offer_forgets (of_decide_eq_true hwithin) hheavy
      exact ⟨room, Nat.lt_add_right rest hlt, fun p hp _ => hroom p hp⟩
  | .string, _, hwithin, _ => by
      intro behind rest hheavy
      obtain ⟨room, hlt, hroom⟩ := offer_forgets (of_decide_eq_true hwithin) hheavy
      exact ⟨room, Nat.lt_add_right rest hlt, fun p hp _ => hroom p hp⟩
  | .archive fs, v, hwithin, hcounted => Fields.fill_forgets fs v hwithin hcounted
  | .list t, v, hwithin, hcounted => by
      intro behind rest hheavy
      rw [Ty.within, Bool.and_eq_true, decide_eq_true_eq] at hwithin
      rw [Ty.counted, Bool.and_eq_true, Bool.or_eq_true, decide_eq_true_eq,
        beq_iff_eq] at hcounted
      have hfills : ∀ x, List.Mem x v → t.FillsUp size x := fun x hx =>
        Ty.fill_fits t x (List.all_eq_true.mp hwithin.2 x hx)
          (List.all_eq_true.mp hcounted.2 x hx)
      have hforgets : ∀ x, List.Mem x v → t.Forgets size x := fun x hx =>
        Ty.fill_forgets t x (List.all_eq_true.mp hwithin.2 x hx)
          (List.all_eq_true.mp hcounted.2 x hx)
      rw [Ty.heavy, Bool.or_eq_true] at hheavy
      rw [Ty.extent, Nat.add_assoc]
      simp only [Ty.fill]
      rcases hheavy with hcount | helems
      · obtain ⟨room, hlt, hroom⟩ := offer_forgets hwithin.1 hcount
        refine ⟨room, Nat.lt_add_right _ hlt, fun p hp _ => ?_⟩
        split
        · exact Ty.foldl_exact v _ hfills (hroom p hp)
        · next hsize =>
            have hzero := hcounted.1.resolve_left hsize
            have hexact := hroom p hp
            rw [behindIn_uncounted hzero, hzero, Nat.zero_add] at hexact
            exact hexact
      · have hpos := sum_pos_of_heavyIn v helems
        obtain ⟨room, hlt, hroom⟩ := Ty.foldl_forgets v hfills hforgets helems
        refine ⟨Scalar.uInt16.width + room, Nat.add_lt_add_left hlt _, fun p hp hok => ?_⟩
        obtain ⟨hok', hp'⟩ := hp.offer_all hwithin.1
        rw [if_pos (hcounted.1.resolve_right (by omega))]
        exact hroom _ hp' hok'

theorem Fields.fill_forgets : ∀ (fs : Fields) (v : fs.Val), fs.within size.toNat v = true →
    fs.counted v = true → ∀ (behind : Option Nat) (rest : Nat),
      fs.heavy v behind rest = true →
      ∃ room < fs.extent v + rest, ∀ p : Filling, p.Has size room → p.ok = true →
        (fs.fill v p).Exact size behind rest
  | .nil, _, _, _ => fun _ _ hheavy => Bool.noConfusion hheavy
  | .cons t fs, (v, vs), hwithin, hcounted => by
      intro behind rest hheavy
      rw [Fields.within, Bool.and_eq_true] at hwithin
      rw [Fields.counted, Bool.and_eq_true] at hcounted
      rw [Fields.heavy, Bool.or_eq_true] at hheavy
      rw [Fields.extent, Nat.add_assoc]
      have hvs := Fields.fill_fits fs vs hwithin.2 hcounted.2
      rcases hheavy with hhead | htail
      · obtain ⟨room, hlt, hroom⟩ :=
          Ty.fill_forgets t v hwithin.1 hcounted.1 _ _ hhead
        refine ⟨room, hlt, fun p hp hok => ?_⟩
        rw [Fields.fill, if_pos hok]
        rcases hroom p hp hok with ⟨hok', hp'⟩ | ⟨hok', hbehind⟩
        · exact Or.inl (hvs _ rest hp' hok')
        · rw [Fields.fill_of_error fs vs _ hok']
          exact Or.inr ⟨hok', hbehind⟩
      · obtain ⟨room, hlt, hroom⟩ :=
          Fields.fill_forgets fs vs hwithin.2 hcounted.2 behind rest htail
        refine ⟨t.extent v + room, by omega, fun p hp hok => ?_⟩
        rw [Fields.fill, if_pos hok]
        obtain ⟨hok', hp'⟩ :=
          Ty.fill_fits t v hwithin.1 hcounted.1 p room hp (Or.inl hok)
        exact hroom _ hp' hok'
end

end Exact

mutual
/-- No piece is longer than the whole. -/
theorem Ty.within_extent {n : Nat} : ∀ (t : Ty) (v : t.Val), t.extent v ≤ n →
    t.within n v = true
  | .scalar _, _, hv => decide_eq_true hv
  | .string, _, hv => decide_eq_true hv
  | .archive fs, v, hv => Fields.within_extent fs v hv
  | .list t, v, hv => by
      rw [Ty.extent] at hv
      rw [Ty.within, Bool.and_eq_true, decide_eq_true_eq]
      refine ⟨Nat.le_trans (Nat.le_add_right _ _) hv, List.all_eq_true.mpr fun x hx => ?_⟩
      have hle := List.le_sum_of_mem (List.mem_map_of_mem (f := t.extent) hx)
      exact Ty.within_extent t x (by omega)

theorem Fields.within_extent {n : Nat} : ∀ (fs : Fields) (v : fs.Val), fs.extent v ≤ n →
    fs.within n v = true
  | .nil, _, _ => rfl
  | .cons t fs, (v, vs), hv => by
      rw [Fields.extent] at hv
      rw [Fields.within, Bool.and_eq_true]
      exact ⟨Ty.within_extent t v (by omega), Fields.within_extent fs vs (by omega)⟩
end

end MyGenSvr.Ports
