import MyGenSvr.Ports.Log
import MyGenSvr.Verified.Numerals

/-!
# Formats

What `%d` prints with a width, as the log and the dates use it: filled up with zeros or
with blanks.  A number that fits its width is printed as its digits, and such texts are
told apart and ordered as the numbers are.

## Main results

* `zeroPadded_eq` — a number that fits is the text of its digits.
* `digitText_lt_iff` — such texts are ordered as the numbers.
-/

namespace MyGenSvr.Ports

open MyGenSvr.Verified.Numerals

/-- `%0d` with a width: zeros behind the sign. -/
def zeroPadded (width : Nat) : Int → List UInt8
  | .ofNat n => List.replicate (width - (decimal n).length) (ch '0') ++ decimal n
  | .negSucc n =>
      ch '-' :: (List.replicate (width - 1 - (decimal (n + 1)).length) (ch '0') ++ decimal (n + 1))

/-- `%d` with a width: blanks before the sign. -/
def blankPadded (width : Nat) (n : Int) : List UInt8 :=
  List.replicate (width - (decimal n).length) (ch ' ') ++ decimal n

/-- The character of a digit. -/
def digitByte (d : Nat) : UInt8 := ch d.digitChar

/-- The text of the last `w` digits of a number. -/
def digitText (w n : Nat) : List UInt8 := (digits 10 w n).map digitByte

@[simp] theorem digitText_length (w n : Nat) : (digitText w n).length = w := by
  rw [digitText, List.length_map, digits_length]

theorem digitByte_toNat {d : Nat} (hd : d < 10) : (digitByte d).toNat = 48 + d := by
  have hchar : d.digitChar.toNat = 48 + d := Nat.toNat_digitChar_of_lt_ten hd
  show d.digitChar.toNat % 2 ^ 8 = 48 + d
  rw [hchar]
  exact Nat.mod_eq_of_lt (by omega)

theorem digitByte_lt_iff {c d : Nat} (hc : c < 10) (hd : d < 10) :
    digitByte c < digitByte d ↔ c < d := by
  rw [UInt8.lt_iff_toNat_lt, digitByte_toNat hc, digitByte_toNat hd]
  omega

theorem digitByte_inj {c d : Nat} (hc : c < 10) (hd : d < 10) (h : digitByte c = digitByte d) :
    c = d := by
  have hnat := congrArg UInt8.toNat h
  rw [digitByte_toNat hc, digitByte_toNat hd] at hnat
  omega

theorem decimal_ofNat (n : Nat) : decimal n = (Nat.toDigits 10 n).map ch := rfl

/-- The digits of a number that fits, with zeros before them. -/
theorem digitText_eq : ∀ (w n : Nat), 0 < w → n < 10 ^ w →
    digitText w n = List.replicate (w - (decimal n).length) (ch '0') ++ decimal n := by
  intro w
  induction w with
  | zero => intro n hw; omega
  | succ w ih =>
      intro n _ hn
      rw [digitText, digits, List.map_append, List.map_singleton]
      show digitText w (n / 10) ++ [digitByte (n % 10)] = _
      by_cases hsmall : n < 10
      · rw [decimal_ofNat, Nat.toDigits_of_lt_base hsmall, Nat.div_eq_of_lt hsmall,
          Nat.mod_eq_of_lt hsmall, digitText, digits_zero, List.map_replicate]
        rfl
      · have hw : 0 < w := by
          rcases Nat.eq_zero_or_pos w with rfl | hpos
          · omega
          · exact hpos
        have hquot : n / 10 < 10 ^ w := Nat.div_lt_of_lt_mul (by rw [← pow_succ']; exact hn)
        rw [ih (n / 10) hw hquot, decimal_ofNat, decimal_ofNat,
          Nat.toDigits_of_base_le (by decide) (not_lt.mp hsmall), List.map_append,
          List.append_assoc, List.length_append, List.map_singleton, List.length_singleton,
          Nat.add_sub_add_right]
        rfl

/-- **A number that fits its width.** -/
theorem zeroPadded_eq {w n : Nat} (hw : 0 < w) (hn : n < 10 ^ w) :
    zeroPadded w n = digitText w n :=
  (digitText_eq w n hw hn).symm

/-- A number that fills its width. -/
theorem blankPadded_eq {w n : Nat} (hlow : 10 ^ w ≤ n) (hn : n < 10 ^ (w + 1)) :
    blankPadded (w + 1) n = digitText (w + 1) n := by
  have hlength : (decimal n).length = w + 1 := by
    have hmost : (decimal n).length ≤ w + 1 := by
      rw [decimal_ofNat, List.length_map]
      exact (Nat.length_toDigits_le_iff (by decide) (by omega)).mpr hn
    have hleast : ¬(decimal n).length ≤ w := by
      rw [decimal_ofNat, List.length_map]
      rcases Nat.eq_zero_or_pos w with rfl | hpos
      · have hsome : 0 < (Nat.toDigits 10 n).length := Nat.length_toDigits_pos
        omega
      · rw [Nat.length_toDigits_le_iff (by decide) hpos]
        omega
    omega
  rw [digitText_eq (w + 1) n (by omega) hn, blankPadded, hlength, Nat.sub_self]
  rfl

/-- **Texts of digits are ordered as the numbers.** -/
theorem digitText_lt_iff {w n m : Nat} (hn : n < 10 ^ w) (hm : m < 10 ^ w) :
    digitText w n < digitText w m ↔ n < m := by
  rw [digitText, digitText, texts_lt_iff, digits_lt_digits_iff hn hm]
  · intro x hx y hy
    exact digitByte_lt_iff (digits_lt (by decide) w n x hx) (digits_lt (by decide) w m y hy)
  · intro x hx y hy
    exact digitByte_inj (digits_lt (by decide) w n x hx) (digits_lt (by decide) w m y hy)

/-- Texts of digits tell the numbers apart. -/
theorem digitText_inj {w n m : Nat} (hn : n < 10 ^ w) (hm : m < 10 ^ w) :
    digitText w n = digitText w m ↔ n = m := by
  constructor
  · intro h
    by_contra hne
    rcases Nat.lt_or_gt_of_ne hne with hless | hmore
    · have hlt := (digitText_lt_iff hn hm).mpr hless
      rw [h] at hlt
      exact List.lt_irrefl _ hlt
    · have hlt := (digitText_lt_iff hm hn).mpr hmore
      rw [h] at hlt
      exact List.lt_irrefl _ hlt
  · intro h
    rw [h]

end MyGenSvr.Ports
