import MyGenSvr.Ports.DateTime

/-!
# The comparisons of `DateTime`

`operator>` holds of a later time, and also of two values whose `struct tm` are
equal byte by byte; `operator<` is its negation, and `operator==` compares the
objects themselves.  Each evaluation fills two structures of its own, so the bytes
that are never set may differ from one evaluation to the next.

## Main results

* `gt_of_ne`, `gt_of_eq` — what `operator>` decides.
* `comparisons_consistent_iff` — exactly when the comparisons of two values agree
  with one another.
-/

namespace MyGenSvr.Ports

/-- The laws of an order on a pair of values, whatever each evaluation finds in the
bytes that are never set.  Irreflexivity is asymmetry on equal values. -/
structure Consistent (mktime : CivilFields → Int) (t rhs : DateTime) : Prop where
  gt_asymm : ∀ u v, ¬(t.gt mktime u rhs = true ∧ rhs.gt mktime v t = true)
  lt_asymm : ∀ u v, ¬(t.lt mktime u rhs = true ∧ rhs.lt mktime v t = true)
  gt_iff_lt : ∀ u v, t.gt mktime u rhs = true ↔ rhs.lt mktime v t = true
  lt_iff_gt : ∀ u v, t.lt mktime u rhs = true ↔ rhs.gt mktime v t = true
  of_equal : t = rhs → t.eq rhs = true ∧
    ∀ u v, ¬t.gt mktime u rhs = true ∧ ¬t.lt mktime v rhs = true
  at_most_one : ∀ u v, ¬(t.lt mktime u rhs = true ∧ t.eq rhs = true) ∧
    ¬(t.eq rhs = true ∧ t.gt mktime v rhs = true) ∧
    ¬(t.lt mktime u rhs = true ∧ t.gt mktime v rhs = true)

section Comparisons

variable {mktime : CivilFields → Int} {t rhs : DateTime}

/-- Structures of different times differ, whatever the bytes that are not set. -/
theorem toTm_ne (h : mktime t.civil ≠ mktime rhs.civil) (u v : List UInt8) :
    t.toTm u ≠ rhs.toTm v := by
  intro hsame
  have hcivil := congrArg Tm.toCivilFields hsame
  rw [DateTime.toTm_civil, DateTime.toTm_civil] at hcivil
  exact h (congrArg mktime hcivil)

/-- Of two different times, `operator>` holds of the later. -/
theorem gt_of_ne (h : mktime t.civil ≠ mktime rhs.civil) (u : List UInt8 × List UInt8) :
    t.gt mktime u rhs = decide (mktime rhs.civil < mktime t.civil) := by
  rw [DateTime.gt, DateTime.minus, decide_eq_false (toTm_ne h u.1 u.2)]
  by_cases hlater : mktime rhs.civil < mktime t.civil
  · rw [if_pos (by omega), decide_eq_true hlater]
  · rw [if_neg (by omega), decide_eq_false hlater]

/-- At one time, `operator>` is the comparison of the two structures. -/
theorem gt_of_eq (h : mktime t.civil = mktime rhs.civil) (u : List UInt8 × List UInt8) :
    t.gt mktime u rhs = decide (t.toTm u.1 = rhs.toTm u.2) := by
  rw [DateTime.gt, DateTime.minus, if_neg (by omega)]

theorem lt_eq_true_iff (u : List UInt8 × List UInt8) :
    t.lt mktime u rhs = true ↔ ¬t.gt mktime u rhs = true := by
  rw [DateTime.lt, Bool.not_eq_true', Bool.not_eq_true]

/-- Two different times compare as an order does. -/
theorem consistent_of_ne (h : mktime t.civil ≠ mktime rhs.civil) : Consistent mktime t rhs := by
  have hgt : ∀ u, t.gt mktime u rhs = true ↔ mktime rhs.civil < mktime t.civil := by
    intro u
    rw [gt_of_ne h, decide_eq_true_eq]
  have hgt' : ∀ u, rhs.gt mktime u t = true ↔ mktime t.civil < mktime rhs.civil := by
    intro u
    rw [gt_of_ne h.symm, decide_eq_true_eq]
  have hne : ¬t.eq rhs = true := by
    intro hsame
    have heq : t = rhs := of_decide_eq_true hsame
    exact h (heq ▸ rfl)
  have hlt : ∀ u, t.lt mktime u rhs = true ↔ mktime t.civil < mktime rhs.civil := by
    intro u
    rw [lt_eq_true_iff, hgt]
    omega
  have hlt' : ∀ u, rhs.lt mktime u t = true ↔ mktime rhs.civil < mktime t.civil := by
    intro u
    rw [lt_eq_true_iff, hgt']
    omega
  exact
    { gt_asymm := by
        intro u v
        rw [hgt, hgt']
        omega
      lt_asymm := by
        intro u v
        rw [hlt, hlt']
        omega
      gt_iff_lt := fun u v => (hgt u).trans (hlt' v).symm
      lt_iff_gt := fun u v => (hlt u).trans (hgt' v).symm
      of_equal := fun heq => absurd (heq ▸ rfl) h
      at_most_one := by
        intro u v
        rw [hlt, hgt]
        exact ⟨fun hboth => hne hboth.2, fun hboth => hne hboth.1, by omega⟩ }

/-- One time compares as an order does in no case: with equal structures `operator>`
holds both ways, and with different ones `operator<` does. -/
theorem not_consistent_of_eq (h : mktime t.civil = mktime rhs.civil) :
    ¬Consistent mktime t rhs := by
  intro hlaws
  have hgt := gt_of_eq h ([], [])
  have hgt' := gt_of_eq h.symm ([], [])
  by_cases hsame : t.toTm [] = rhs.toTm []
  · rw [decide_eq_true hsame] at hgt
    rw [decide_eq_true hsame.symm] at hgt'
    exact hlaws.gt_asymm ([], []) ([], []) ⟨hgt, hgt'⟩
  · rw [decide_eq_false hsame] at hgt
    rw [decide_eq_false (Ne.symm hsame)] at hgt'
    refine hlaws.lt_asymm ([], []) ([], []) ⟨?_, ?_⟩
    · rw [lt_eq_true_iff, hgt]
      decide
    · rw [lt_eq_true_iff, hgt']
      decide

end Comparisons

/-- **The comparisons.**  They agree with one another on two values exactly when
`mktime` tells the two apart; never on equal values. -/
theorem comparisons_consistent_iff (mktime : CivilFields → Int) (t rhs : DateTime) :
    Consistent mktime t rhs ↔ mktime t.civil ≠ mktime rhs.civil := by
  constructor
  · intro hlaws hsame
    exact not_consistent_of_eq hsame hlaws
  · exact consistent_of_ne

/-- Midnight of the first of January 2016 is after itself. -/
theorem comparisons_inconsistent :
    let mktime : CivilFields → Int := fun c => 86400 * (31 * c.tm_mon.toInt + c.tm_mday.toInt)
    let t : DateTime := .ofCivil 2016 1 1 0 0 0
    t.gt mktime ([0], [0]) t = true ∧ ¬Consistent mktime t t := by
  refine ⟨by decide, fun hlaws => ?_⟩
  exact hlaws.gt_asymm ([0], [0]) ([0], [0]) ⟨by decide, by decide⟩

end MyGenSvr.Ports
