import Mathlib

/-!
# Numerals of fixed width

The last `w` digits of a number in base `b`, leading zeros included, most significant
first.  The numerals of numbers below `b ^ w` are ordered as the numbers are; so are texts
made of several such fields, and their images under an increasing alphabet.

## Main results

* `digits_lt_digits_iff` — numerals are ordered as numbers.
* `digits_append` — two numerals side by side.
* `append_lt_append_iff` — fields of equal length, compared from the left.
* `texts_lt_iff` — texts over an increasing alphabet.
-/

namespace MyGenSvr.Verified.Numerals

variable {α β : Type*} {b : Nat}

/-- The last `w` digits of `n` in base `b`. -/
def digits (b : Nat) : (w n : Nat) → List Nat
  | 0, _ => []
  | w + 1, n => digits b w (n / b) ++ [n % b]

@[simp] theorem digits_length (b w n : Nat) : (digits b w n).length = w := by
  induction w generalizing n with
  | zero => rfl
  | succ w ih => rw [digits, List.length_append, ih, List.length_singleton]

theorem digits_lt (hb : 0 < b) (w n : Nat) : ∀ d ∈ digits b w n, d < b := by
  induction w generalizing n with
  | zero =>
      intro d hd
      exact absurd hd List.not_mem_nil
  | succ w ih =>
      intro d hd
      rw [digits] at hd
      rcases List.mem_append.mp hd with hinit | hlast
      · exact ih (n / b) d hinit
      · rw [List.mem_singleton.mp hlast]
        exact Nat.mod_lt n hb

/-- The digits of zero. -/
theorem digits_zero (b w : Nat) : digits b w 0 = List.replicate w 0 := by
  induction w with
  | zero => rfl
  | succ w ih => rw [digits, Nat.zero_div, Nat.zero_mod, ih, ← List.replicate_succ']

/-- **Two numerals side by side** are one. -/
theorem digits_append (w n : Nat) {k m : Nat} (hm : m < b ^ k) :
    digits b w n ++ digits b k m = digits b (w + k) (n * b ^ k + m) := by
  induction k generalizing m with
  | zero =>
      rw [pow_zero] at hm
      rw [pow_zero, Nat.mul_one, Nat.lt_one_iff.mp hm]
      exact List.append_nil _
  | succ k ih =>
      have hb : 0 < b := by
        by_contra hzero
        rw [Nat.eq_zero_of_not_pos hzero, pow_succ, mul_zero] at hm
        omega
      have hquot : m / b < b ^ k := Nat.div_lt_of_lt_mul (by rw [← pow_succ']; exact hm)
      have hshift : n * b ^ (k + 1) + m = m + b * (n * b ^ k) := by
        rw [pow_succ]
        ring
      have hdiv : (n * b ^ (k + 1) + m) / b = n * b ^ k + m / b := by
        rw [hshift, Nat.add_mul_div_left _ _ hb]
        exact Nat.add_comm _ _
      have hmod : (n * b ^ (k + 1) + m) % b = m % b := by
        rw [hshift, Nat.add_mul_mod_self_left]
      rw [← Nat.add_assoc, digits, digits, hdiv, hmod, ← List.append_assoc, ih hquot]

/-! ## Order -/

section Order

variable [LinearOrder α]

/-- A difference in the first field decides. -/
theorem append_lt_append_left {l₁ l₂ : List α} (hlen : l₁.length = l₂.length) (hlt : l₁ < l₂)
    (r₁ r₂ : List α) : l₁ ++ r₁ < l₂ ++ r₂ := by
  induction l₁ generalizing l₂ with
  | nil =>
      rw [List.length_nil, eq_comm, List.length_eq_zero_iff] at hlen
      rw [hlen] at hlt
      exact absurd hlt (List.lt_irrefl [])
  | cons a l₁ ih =>
      cases l₂ with
      | nil => exact absurd hlt (List.not_lt_nil _)
      | cons c l₂ =>
          rw [List.cons_append, List.cons_append, List.cons_lt_cons_iff]
          rcases List.cons_lt_cons_iff.mp hlt with hhead | ⟨hhead, htail⟩
          · exact Or.inl hhead
          · exact Or.inr ⟨hhead, ih (Nat.succ.inj hlen) htail⟩

/-- **Fields of equal length are compared from the left.** -/
theorem append_lt_append_iff {l₁ l₂ r₁ r₂ : List α} (hlen : l₁.length = l₂.length) :
    l₁ ++ r₁ < l₂ ++ r₂ ↔ l₁ < l₂ ∨ (l₁ = l₂ ∧ r₁ < r₂) := by
  constructor
  · intro hlt
    rcases lt_trichotomy l₁ l₂ with hless | heq | hmore
    · exact Or.inl hless
    · subst heq
      refine Or.inr ⟨rfl, ?_⟩
      rcases lt_trichotomy r₁ r₂ with hless | heq | hmore
      · exact hless
      · rw [heq] at hlt
        exact absurd hlt (lt_irrefl _)
      · exact absurd hlt (lt_asymm (List.append_left_lt hmore))
    · exact absurd hlt (lt_asymm (append_lt_append_left hlen.symm hmore r₂ r₁))
  · rintro (hlt | ⟨rfl, hlt⟩)
    · exact append_lt_append_left hlen hlt r₁ r₂
    · exact List.append_left_lt hlt

theorem digits_lt_digits {w : Nat} : ∀ {n m : Nat}, m < b ^ w → n < m →
    digits b w n < digits b w m := by
  induction w with
  | zero =>
      intro n m hm hlt
      rw [pow_zero] at hm
      omega
  | succ w ih =>
      intro n m hm hlt
      have hb : 0 < b := by
        by_contra hzero
        rw [Nat.eq_zero_of_not_pos hzero, pow_succ, mul_zero] at hm
        omega
      have hquot : m / b < b ^ w := Nat.div_lt_of_lt_mul (by rw [← pow_succ']; exact hm)
      rw [digits, digits, append_lt_append_iff (by rw [digits_length, digits_length])]
      rcases Nat.lt_or_ge (n / b) (m / b) with hless | hge
      · exact Or.inl (ih hquot hless)
      · have heq : n / b = m / b := le_antisymm (Nat.div_le_div_right hlt.le) hge
        refine Or.inr ⟨by rw [heq], ?_⟩
        have hrest : n % b < m % b := by
          have hn := Nat.div_add_mod n b
          have hm := Nat.div_add_mod m b
          rw [heq] at hn
          omega
        exact List.cons_lt_cons_iff.mpr (Or.inl hrest)

/-- **Numerals are ordered as numbers.** -/
theorem digits_lt_digits_iff {w n m : Nat} (hn : n < b ^ w) (hm : m < b ^ w) :
    digits b w n < digits b w m ↔ n < m := by
  constructor
  · intro hlt
    by_contra hge
    rcases Nat.lt_or_eq_of_le (not_lt.mp hge) with hless | heq
    · exact absurd hlt (lt_asymm (digits_lt_digits hn hless))
    · rw [heq] at hlt
      exact absurd hlt (lt_irrefl _)
  · exact digits_lt_digits hm

end Order

/-- Texts over an alphabet that increases with the digits. -/
theorem texts_lt_iff [LT α] [LT β] {f : α → β} {l₁ l₂ : List α}
    (hf : ∀ x ∈ l₁, ∀ y ∈ l₂, f x < f y ↔ x < y) (hinj : ∀ x ∈ l₁, ∀ y ∈ l₂, f x = f y → x = y) :
    l₁.map f < l₂.map f ↔ l₁ < l₂ := by
  induction l₁ generalizing l₂ with
  | nil =>
      cases l₂ with
      | nil => exact iff_of_false (List.not_lt_nil _) (List.not_lt_nil _)
      | cons y l₂ => exact iff_of_true (List.nil_lt_cons _ _) (List.nil_lt_cons _ _)
  | cons x l₁ ih =>
      cases l₂ with
      | nil => exact iff_of_false (List.not_lt_nil _) (List.not_lt_nil _)
      | cons y l₂ =>
          have htail := @ih l₂
            (fun x hx y hy => hf x (List.mem_cons_of_mem _ hx) y (List.mem_cons_of_mem _ hy))
            (fun x hx y hy => hinj x (List.mem_cons_of_mem _ hx) y (List.mem_cons_of_mem _ hy))
          have hhead : f x = f y ↔ x = y :=
            ⟨hinj x List.mem_cons_self y List.mem_cons_self, congrArg f⟩
          rw [List.map_cons, List.map_cons, List.cons_lt_cons_iff, List.cons_lt_cons_iff, htail,
            hhead, hf x List.mem_cons_self y List.mem_cons_self]

end MyGenSvr.Verified.Numerals
