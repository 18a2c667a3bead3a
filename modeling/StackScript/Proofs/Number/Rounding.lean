import Mathlib.Algebra.Order.Field.Power
import Mathlib.Algebra.Order.Field.Rat
import Mathlib.Tactic.Linarith
import Mathlib.Tactic.Ring
import StackScript.Number.Basic

/-!
# Rounding to the nearest number

The product and the quotient of two numbers are first cut to a mantissa of the right length. What is
cut off is kept as an accuracy, which says whether it is nothing, or less than half a unit of the
mantissa, half of it, or more. Everything between the two midpoints around a number is rounded to
that number.
-/

namespace StackScript.Number

open Float.Model
open Float.Model.UnpackedFloat

/-! ## Accuracy -/

/-- How far `x` lies above the whole number `n`. -/
inductive Lies (x : ℚ) (n : Nat) : Accuracy → Prop
  | exact (same : x = n) : Lies x n .exact
  | below (more : n < x) (less : x < n + 1 / 2) : Lies x n (.inexact .lt)
  | half (same : x = n + 1 / 2) : Lies x n (.inexact .eq)
  | above (more : n + 1 / 2 < x) (less : x < n + 1) : Lies x n (.inexact .gt)

variable {x : ℚ} {n : Nat} {accuracy : Accuracy}

theorem Lies.le (h : Lies x n accuracy) : (n : ℚ) ≤ x := by
  cases h <;> linarith

theorem Lies.lt_add_one (h : Lies x n accuracy) : x < n + 1 := by
  cases h <;> linarith

theorem Lies.congr {y : ℚ} {k : Nat} {other : Accuracy} (h : Lies x n accuracy) (hx : x = y)
    (hn : n = k)
    (ha : accuracy = other) : Lies y k other := by
  subst hx hn ha
  exact h

/-- Rounding a number that lies no further than one half from `k`; halfway, `k` is even. -/
theorem Lies.roundToNearestEven {k : Nat} (h : Lies x n accuracy) (low : (k : ℚ) - 1 / 2 ≤ x)
    (high : x ≤ k + 1 / 2)
    (odd : k % 2 = 1 → (k : ℚ) - 1 / 2 < x ∧ x < k + 1 / 2) :
    accuracy.roundToNearestEven n = k := by
  have near (below : (n : ℚ) < k + 1) (above : (k : ℚ) < n + 2) : n = k ∨ n + 1 = k := by
    have hbelow : n < k + 1 := by exact_mod_cast below
    have habove : k < n + 2 := by exact_mod_cast above
    omega
  have close := near (by linarith [h.le]) (by linarith [h.lt_add_one])
  cases h with
  | exact same =>
    rcases close with rfl | rfl
    · rfl
    · push_cast at low
      linarith
  | below more less =>
    rcases close with rfl | rfl
    · rfl
    · push_cast at low
      linarith
  | half same =>
    -- Of the two neighbours the even one is `k`, as the odd one does not take the midpoint.
    have parity : k % 2 = 0 := by
      rcases Nat.mod_two_eq_zero_or_one k with even | isOdd
      · exact even
      · obtain ⟨less, more⟩ := odd isOdd
        rcases close with rfl | rfl
        · linarith
        · push_cast at less
          linarith
    rw [Accuracy.roundToNearestEven]
    omega
  | above more less =>
    rcases close with rfl | rfl
    · linarith
    · rfl

/-- The accuracy after the last bit of the mantissa is cut off too. -/
theorem Lies.shiftRightOne {em : ExtendedMantissa} (h : Lies x em.mantissa em.accuracy) :
    Lies (x / 2) em.shiftRightOne.mantissa em.shiftRightOne.accuracy := by
  obtain ⟨m, round, sticky⟩ := em
  have whole : (m : ℚ) = 2 * (m / 2 : Nat) + (m % 2 : Nat) := by
    exact_mod_cast (Nat.div_add_mod m 2).symm
  rcases Nat.mod_two_eq_zero_or_one m with even | odd
  · rw [even, Nat.cast_zero, add_zero] at whole
    cases round <;> cases sticky <;> cases h <;>
      simp only [ExtendedMantissa.shiftRightOne, ExtendedMantissa.accuracy, even, bne_self_eq_false,
        Bool.or_false, Bool.or_true] at *
    · exact .exact (by linarith)
    · exact .below (by linarith) (by linarith)
    · exact .below (by linarith) (by linarith)
    · exact .below (by linarith) (by linarith)
  · rw [odd, Nat.cast_one] at whole
    have bit : (1 != 0) = true := rfl
    cases round <;> cases sticky <;> cases h <;>
      simp only [ExtendedMantissa.shiftRightOne, ExtendedMantissa.accuracy, odd, bit, Bool.or_false,
        Bool.or_true] at *
    · exact .half (by linarith)
    · exact .above (by linarith) (by linarith)
    · exact .above (by linarith) (by linarith)
    · exact .above (by linarith) (by linarith)

/-- The accuracy after `k` bits are cut off. -/
theorem Lies.shiftRight {em : ExtendedMantissa} (h : Lies x em.mantissa em.accuracy) (k : Nat) :
    Lies (x / 2 ^ k) (em >>> k).mantissa (em >>> k).accuracy := by
  induction k with
  | zero => exact h.congr (by simp) rfl rfl
  | succ k ih => exact ih.shiftRightOne.congr (by rw [pow_succ, div_div]) rfl rfl

theorem mantissa_shiftRight (em : ExtendedMantissa) (k : Nat) :
    (em >>> k).mantissa = em.mantissa / 2 ^ k := by
  induction k with
  | zero => simp [HShiftRight.hShiftRight, Nat.repeat]
  | succ k ih =>
    have step : (em >>> (k + 1)).mantissa = (em >>> k).mantissa / 2 := rfl
    rw [step, ih, Nat.div_div_eq_div_mul, pow_succ]

theorem mantissa_ofMantissaAndAccuracy (m : Nat) (accuracy : Accuracy) :
    (ExtendedMantissa.ofMantissaAndAccuracy m accuracy).mantissa = m := by
  rcases accuracy with _ | order
  · rfl
  · cases order <;> rfl

theorem accuracy_ofMantissaAndAccuracy (m : Nat) (accuracy : Accuracy) :
    (ExtendedMantissa.ofMantissaAndAccuracy m accuracy).accuracy = accuracy := by
  rcases accuracy with _ | order
  · rfl
  · cases order <;> rfl

/-- The accuracy of a quotient. -/
theorem lies_div (k : Nat) {d : Nat} (positive : 0 < d) :
    Lies (k / d) (k / d) (accuracyOfFraction (k % d) d) := by
  have hd : (0 : ℚ) < d := by exact_mod_cast positive
  have whole : (k : ℚ) / d = (k / d : Nat) + (k % d : Nat) / d := by
    rw [div_eq_iff hd.ne', add_mul, div_mul_cancel₀ _ hd.ne']
    exact_mod_cast (Nat.div_add_mod' k d).symm
  have less : ((k % d : Nat) : ℚ) / d < 1 := by
    rw [div_lt_one₀ hd]
    exact_mod_cast Nat.mod_lt k positive
  rw [whole]
  unfold accuracyOfFraction
  split
  · next nothing => exact .exact (by rw [nothing]; simp)
  · next something =>
    have more : (0 : ℚ) < (k % d : Nat) / d :=
      div_pos (by exact_mod_cast Nat.pos_of_ne_zero something) hd
    rcases lt_trichotomy (2 * (k % d)) d with lt | eq | gt
    · have hlt : ((k % d : Nat) : ℚ) / d < 1 / 2 := by
        rw [div_lt_div_iff₀ hd two_pos, one_mul, mul_comm]
        exact_mod_cast lt
      rw [Nat.compare_eq_lt.mpr lt]
      exact .below (by linarith) (by linarith)
    · have heq : ((k % d : Nat) : ℚ) / d = 1 / 2 := by
        rw [div_eq_div_iff hd.ne' two_ne_zero, one_mul, mul_comm]
        exact_mod_cast eq
      rw [Nat.compare_eq_eq.mpr eq]
      exact .half (by linarith)
    · have hgt : (1 : ℚ) / 2 < (k % d : Nat) / d := by
        rw [div_lt_div_iff₀ two_pos hd, one_mul, mul_comm _ (2 : ℚ)]
        exact_mod_cast gt
      rw [Nat.compare_eq_gt.mpr gt]
      exact .above (by linarith) (by linarith)

/-! ## Mantissas of the right length -/

/-- The exponent to which `m * 2 ^ e` is cut. -/
def target (m : Nat) (e : Int) : Int := max (m.log2 + e - 52) leastExponent

theorem targetExponent_totalExponent (m : Nat) (e : Int) :
    Format.binary64.targetExponent (totalExponent m e) = target m e := by
  have bits : (Format.binary64.mantissaBits : Int) = 53 := rfl
  have least : Format.binary64.minExponent = leastExponent := rfl
  rw [Format.targetExponent, totalExponent, bits, least, target]
  congr 1
  omega

/-- The mantissa and the exponent of a finite number as they are stored. -/
structure Stored (m : Nat) (e : Int) : Prop where
  small : m < 2 * leastNormal
  least : leastExponent ≤ e
  normal : leastNormal ≤ m ∨ e = leastExponent
  greatest : e ≤ 971

theorem log2_le_of_lt {m : Nat} (small : m < 2 * leastNormal) : m.log2 ≤ 52 := by
  rcases Nat.eq_zero_or_pos m with rfl | positive
  · simp
  · have bound : m < 2 ^ 53 := small
    have := (Nat.log2_lt positive.ne').mpr bound
    omega

/-- A mantissa that is short enough is not cut. -/
theorem shiftToTargetExponent_exact {m : Nat} {e : Int} (small : m < 2 * leastNormal)
    (least : leastExponent ≤ e) :
    shiftToTargetExponent .binary64 m e .exact = (⟨m, false, false⟩, e) := by
  have log := log2_le_of_lt small
  have none : (target m e - e).toNat = 0 := by
    rw [target]
    omega
  rw [shiftToTargetExponent, targetExponent_totalExponent, shiftToExponent, none]
  simp [HShiftRight.hShiftRight, Nat.repeat, ExtendedMantissa.ofMantissaAndAccuracy]

/-- A mantissa that rounding has made one bit too long. -/
theorem shiftToTargetExponent_long {e : Int} (least : leastExponent ≤ e) :
    shiftToTargetExponent .binary64 (2 * leastNormal) e .exact =
      (⟨leastNormal, false, false⟩, e + 1) := by
  have log : (2 * leastNormal).log2 = 53 := by decide
  have one : (target (2 * leastNormal) e - e).toNat = 1 := by
    rw [target, log]
    omega
  rw [shiftToTargetExponent, targetExponent_totalExponent, shiftToExponent, one]
  rfl

/-- A mantissa of which enough bits are given is cut to the right length. -/
theorem exists_shiftToTargetExponent {m : Nat} {e : Int} (fine : e ≤ target m e)
    (h : Lies (x / 2 ^ e) m accuracy) :
    ∃ em, shiftToTargetExponent .binary64 m e accuracy = (em, target m e) ∧
      Lies (x / 2 ^ target m e) em.mantissa em.accuracy ∧ em.mantissa < 2 * leastNormal ∧
      (leastNormal ≤ em.mantissa ∨ target m e = leastExponent) := by
  obtain ⟨k, hk⟩ : ∃ k : Nat, target m e = e + k := ⟨(target m e - e).toNat, by omega⟩
  have amount : (target m e - e).toNat = k := by omega
  refine ⟨ExtendedMantissa.ofMantissaAndAccuracy m accuracy >>> k, ?_, ?_, ?_, ?_⟩
  · rw [shiftToTargetExponent, targetExponent_totalExponent, shiftToExponent, amount, hk]
  · have start : Lies (x / 2 ^ e) (ExtendedMantissa.ofMantissaAndAccuracy m accuracy).mantissa
        (ExtendedMantissa.ofMantissaAndAccuracy m accuracy).accuracy :=
      h.congr rfl (mantissa_ofMantissaAndAccuracy m accuracy).symm
        (accuracy_ofMantissaAndAccuracy m accuracy).symm
    refine (start.shiftRight k).congr ?_ rfl rfl
    rw [hk, zpow_add₀ two_ne_zero, zpow_natCast, div_div]
  · rw [mantissa_shiftRight, mantissa_ofMantissaAndAccuracy,
      Nat.div_lt_iff_lt_mul (Nat.two_pow_pos k)]
    have enough : m.log2 + 1 ≤ 53 + k := by
      rw [target] at hk
      omega
    calc m < 2 ^ (m.log2 + 1) := Nat.lt_log2_self
      _ ≤ 2 ^ (53 + k) := Nat.pow_le_pow_right two_pos enough
      _ = 2 * leastNormal * 2 ^ k := by rw [pow_add]; rfl
  · rw [mantissa_shiftRight, mantissa_ofMantissaAndAccuracy,
      Nat.le_div_iff_mul_le (Nat.two_pow_pos k)]
    by_cases least : target m e = leastExponent
    · exact .inr least
    · left
      have all : m.log2 = 52 + k := by
        rw [target] at hk least
        omega
      have positive : m ≠ 0 := by
        rintro rfl
        rw [Nat.log2_zero] at all
        omega
      calc leastNormal * 2 ^ k = 2 ^ (52 + k) := by rw [pow_add]; rfl
        _ = 2 ^ m.log2 := by rw [all]
        _ ≤ m := Nat.log2_self_le positive

/-! ## The interval that is rounded to a number -/

/-- The least number that is rounded to `m * 2 ^ e`, in quarters of `2 ^ e`. Numbers lie closer
    below a power of two. -/
def lowEnd (m : Nat) (e : Int) : Nat :=
  if m = leastNormal ∧ leastExponent < e then 4 * m - 1 else 4 * m - 2

/-- What is rounded to `m * 2 ^ e`, in quarters of `2 ^ e`. The ends belong to it if the mantissa is
    even. -/
structure RoundsTo (x : ℚ) (m : Nat) (e : Int) : Prop where
  low : lowEnd m e ≤ 4 * (x / 2 ^ e)
  high : 4 * (x / 2 ^ e) ≤ 4 * m + 2
  odd : m % 2 = 1 → lowEnd m e < 4 * (x / 2 ^ e) ∧ 4 * (x / 2 ^ e) < 4 * m + 2

variable {m : Nat} {e : Int}

theorem le_lowEnd (positive : 0 < m) : (4 * m - 2 : ℚ) ≤ lowEnd m e := by
  have cast : ((4 * m - 2 : Nat) : ℚ) = 4 * m - 2 := by
    rw [Nat.cast_sub (by omega)]
    push_cast
    rfl
  rw [← cast]
  unfold lowEnd
  split
  · exact_mod_cast (by omega : 4 * m - 2 ≤ 4 * m - 1)
  · rfl

theorem lowEnd_leastNormal (more : leastExponent < e) :
    (lowEnd leastNormal e : ℚ) = 4 * leastNormal - 1 := by
  rw [lowEnd, if_pos ⟨rfl, more⟩, Nat.cast_sub (by decide)]
  push_cast
  rfl

/-- How `x` lies on the grid of a finer exponent. -/
theorem div_two_zpow (x : ℚ) (e t : Int) : x / 2 ^ t = x / 2 ^ e * 2 ^ (e - t) := by
  rw [zpow_sub₀ two_ne_zero, div_mul_div_cancel₀ (zpow_ne_zero e two_ne_zero)]

/-- A number in the interval is not cut to a greater exponent: the mantissa would be too short
    there. -/
theorem RoundsTo.le_exponent (h : RoundsTo x m e) (stored : Stored m e) {f : Nat} {t : Int}
    (floor : Lies (x / 2 ^ t) f accuracy) (normal : leastNormal ≤ f ∨ t = leastExponent) :
    t ≤ e := by
  by_contra more
  have high := h.high
  have above := floor.le
  have scale := div_two_zpow x t e
  have hm : (m : ℚ) + 1 ≤ 2 * leastNormal := by exact_mod_cast stored.small
  have hf : (leastNormal : ℚ) ≤ f := by
    rcases normal with big | isLeast
    · exact_mod_cast big
    · have := stored.least
      omega
  have hN : (0 : ℚ) ≤ leastNormal := Nat.cast_nonneg _
  have factor : (2 : ℚ) ≤ 2 ^ (t - e) := by
    calc (2 : ℚ) = 2 ^ (1 : Int) := by norm_num
      _ ≤ 2 ^ (t - e) := zpow_le_zpow_right₀ one_le_two (by omega)
  have grown := mul_le_mul_of_nonneg_left factor (by linarith : 0 ≤ x / 2 ^ t)
  linarith

/-- A number in the interval that is cut to a smaller exponent lies just below a power of two. -/
theorem RoundsTo.next_of_lt (h : RoundsTo x m e) (stored : Stored m e) (positive : 0 < m)
    {f : Nat} {t : Int}
    (floor : Lies (x / 2 ^ t) f accuracy) (small : f < 2 * leastNormal) (least : leastExponent ≤ t)
    (less : t < e) :
    t + 1 = e ∧ m = leastNormal := by
  have low := h.low
  have bottom := le_lowEnd (e := e) positive
  have under := floor.lt_add_one
  have scale := div_two_zpow x e t
  have hf : (f : ℚ) + 1 ≤ 2 * leastNormal := by exact_mod_cast small
  have big : leastNormal ≤ m := stored.normal.resolve_right (by omega)
  have hm : (leastNormal : ℚ) ≤ m := by exact_mod_cast big
  have hN : (1 : ℚ) ≤ leastNormal := by norm_num [leastNormal]
  have next : t + 1 = e := by
    by_contra further
    have factor : (4 : ℚ) ≤ 2 ^ (e - t) := by
      calc (4 : ℚ) = 2 ^ (2 : Int) := by norm_num
        _ ≤ 2 ^ (e - t) := zpow_le_zpow_right₀ one_le_two (by omega)
    have grown := mul_le_mul_of_nonneg_left factor (by linarith : 0 ≤ x / 2 ^ e)
    linarith
  refine ⟨next, ?_⟩
  by_contra other
  have bigger : (leastNormal : ℚ) + 1 ≤ m := by exact_mod_cast (by omega : leastNormal + 1 ≤ m)
  have factor : (2 : ℚ) ^ (e - t) = 2 := by
    rw [← next, add_sub_cancel_left, zpow_one]
  rw [factor] at scale
  linarith

/-- A number in the interval is cut to the exponent of the interval, or it lies so close below a
    power of two that it is cut to the exponent before. -/
theorem RoundsTo.exponent_cases (h : RoundsTo x m e) (stored : Stored m e) (positive : 0 < m)
    {f : Nat} {t : Int}
    (floor : Lies (x / 2 ^ t) f accuracy) (small : f < 2 * leastNormal)
    (normal : leastNormal ≤ f ∨ t = leastExponent)
    (least : leastExponent ≤ t) :
    t = e ∨ (t + 1 = e ∧ m = leastNormal ∧ leastExponent < e) := by
  rcases (h.le_exponent stored floor normal).eq_or_lt with same | less
  · exact .inl same
  · obtain ⟨next, power⟩ := h.next_of_lt stored positive floor small least less
    exact .inr ⟨next, power, by omega⟩

/-- The mantissa is cut, rounded, and cut again. -/
theorem roundWithAccuracy_of_shifted {k : Nat} {t t' : Int} {em : ExtendedMantissa}
    (first : shiftToTargetExponent .binary64 k t accuracy = (em, t'))
    (last : shiftToTargetExponent .binary64 em.roundedMantissa t' .exact = (⟨m, false, false⟩, e))
    (positive : 0 < m)
    (sign : Sign) : roundWithAccuracy .binary64 sign k t accuracy = .finite sign m e positive := by
  unfold roundWithAccuracy
  rw [first]
  dsimp only
  rw [last]
  exact dif_neg positive.ne'

/-- All of the interval of a number is rounded to it. -/
theorem RoundsTo.roundWithAccuracy (h : RoundsTo x m e) (stored : Stored m e) (positive : 0 < m)
    (sign : Sign) {k : Nat}
    {t : Int} (fine : t ≤ target k t) (lies : Lies (x / 2 ^ t) k accuracy) :
    roundWithAccuracy .binary64 sign k t accuracy = .finite sign m e positive := by
  obtain ⟨em, shifted, floor, small, normal⟩ := exists_shiftToTargetExponent fine lies
  have least : leastExponent ≤ target k t := le_max_right ..
  have low := h.low
  have high := h.high
  have bottom := le_lowEnd (e := e) positive
  rcases h.exponent_cases stored positive floor small normal least with same | ⟨next, rfl, more⟩
  · rw [same] at floor shifted
    have rounded : em.roundedMantissa = m := by
      refine floor.roundToNearestEven (by linarith) (by linarith) ?_
      intro isOdd
      obtain ⟨left, right⟩ := h.odd isOdd
      exact ⟨by linarith, by linarith⟩
    refine roundWithAccuracy_of_shifted shifted ?_ positive sign
    rw [rounded, shiftToTargetExponent_exact stored.small stored.least]
  · rw [lowEnd_leastNormal more] at low
    have double : x / 2 ^ target k t = x / 2 ^ e * 2 := by
      rw [div_two_zpow x e, ← next, add_sub_cancel_left, zpow_one]
    have under := floor.lt_add_one
    have top : (em.mantissa : ℚ) + 1 ≤ 2 * leastNormal := by exact_mod_cast small
    have rounded : em.roundedMantissa = 2 * leastNormal := by
      refine floor.roundToNearestEven ?_ ?_ ?_
      · push_cast
        linarith
      · push_cast
        linarith
      · intro isOdd
        omega
    refine roundWithAccuracy_of_shifted shifted ?_ positive sign
    rw [rounded, shiftToTargetExponent_long least, next]

end StackScript.Number
