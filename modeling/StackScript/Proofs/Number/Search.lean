import StackScript.Number.Shortest
import StackScript.Proofs.Number.Decimals

/-!
# The search for the shortest decimal

Whatever the search finds belongs to the interval of the number, and it always finds something: the
last of the grids is finer than a quarter of the distance to the next number.
-/

namespace StackScript.Number

variable {tie : Tie} {m : Nat} {e step : Int} {n : Nat}

/-- The rational number that is written. -/
def Decimal.value (d : Decimal) : ℚ := d.coefficient * 10 ^ d.exponent

theorem Decimal.value_trim (d : Decimal) : d.trim.value = d.value := by
  fun_induction Decimal.trim d with
  | case1 d h ih =>
    have whole : d.coefficient = 10 * (d.coefficient / 10) := by omega
    rw [ih, Decimal.value, Decimal.value, whole, Nat.mul_div_cancel_left _ (by decide)]
    push_cast
    rw [zpow_add_one₀ (by norm_num)]
    ring
  | case2 d h => rfl

theorem Decimal.value_pos_iff {d : Decimal} : 0 < d.value ↔ 0 < d.coefficient := by
  rw [Decimal.value, mul_pos_iff_of_pos_right (by positivity), Nat.cast_pos]

/-! ## Scales -/

theorem scales_pos (e step : Int) : 0 < (scales e step).1 ∧ 0 < (scales e step).2 := by
  constructor <;> exact Nat.shiftLeft_pos_iff.mpr (Nat.pow_pos (by decide))

/-- Steps of the grid in quarters of `2 ^ e`. -/
theorem scales_ratio (e step : Int) (n : Nat) :
    (n * (scales e step).2 : ℚ) = 4 * (n * 10 ^ step / 2 ^ e) * (scales e step).1 := by
  have ten : (10 : ℚ) ^ step.toNat = 10 ^ step * 10 ^ (-step).toNat := by
    rw [← zpow_natCast, ← zpow_natCast, ← zpow_add₀ (by norm_num)]
    congr 1
    omega
  have two : (2 : ℚ) ^ (2 - e).toNat = 4 / 2 ^ e * 2 ^ (e - 2).toNat := by
    have four : (4 : ℚ) = 2 ^ (2 : Int) := by norm_num
    rw [four, ← zpow_sub₀ two_ne_zero, ← zpow_natCast, ← zpow_natCast, ← zpow_add₀ two_ne_zero]
    congr 1
    omega
  simp only [scales, Nat.shiftLeft_eq]
  change (n * ((10 ^ step.toNat * 2 ^ (2 - e).toNat : Nat) : ℚ)) =
    _ * ((10 ^ (-step).toNat * 2 ^ (e - 2).toNat : Nat) : ℚ)
  push_cast
  rw [ten, two]
  ring

/-- The test of the search: `n` steps of the grid lie between the ends of the interval. -/
def inside (m : Nat) (e step : Int) (n : Nat) : Bool :=
  if m % 2 = 0 then lowEnd m e * (scales e step).1 ≤ n * (scales e step).2 ∧
    n * (scales e step).2 ≤ (4 * m + 2) * (scales e step).1
  else lowEnd m e * (scales e step).1 < n * (scales e step).2 ∧
    n * (scales e step).2 < (4 * m + 2) * (scales e step).1

theorem roundsTo_of_inside (h : inside m e step n = true) : RoundsTo (n * 10 ^ step) m e := by
  have unit : (0 : ℚ) < (scales e step).1 := by exact_mod_cast (scales_pos e step).1
  -- Both sides are counted in quarters once they are divided by the first scale.
  have le_iff (k : Nat) : k * (scales e step).1 ≤ n * (scales e step).2 ↔
      k ≤ 4 * (n * 10 ^ step / 2 ^ e : ℚ) := by
    rw [← mul_le_mul_iff_left₀ unit, ← scales_ratio]
    norm_cast
  have ge_iff (k : Nat) : n * (scales e step).2 ≤ k * (scales e step).1 ↔
      4 * (n * 10 ^ step / 2 ^ e : ℚ) ≤ k := by
    rw [← mul_le_mul_iff_left₀ unit, ← scales_ratio]
    norm_cast
  have top : ((4 * m + 2 : Nat) : ℚ) = 4 * m + 2 := by
    push_cast
    rfl
  simp only [inside, ← Nat.not_le, le_iff, ge_iff, top] at h
  by_cases even : m % 2 = 0
  · rw [if_pos even, decide_eq_true_eq] at h
    refine ⟨h.1, h.2, ?_⟩
    intro odd
    omega
  · rw [if_neg even, decide_eq_true_eq, not_le, not_le] at h
    exact ⟨h.1.le, h.2.le, fun _ => h⟩

/-! ## One grid -/

/-- The last step of the grid that is not above the number. -/
def below (m : Nat) (e step : Int) : Nat :=
  4 * m * (scales e step).1 / (scales e step).2

/-- One of the two neighbours is taken that lie in the interval, unless the number lies below the
    first step. -/
theorem nearestOn_cases (tie : Tie) (m : Nat) (e step : Int) :
    (nearestOn tie m e step = none ∧
      (below m e step = 0 ∨ inside m e step (below m e step) = false)) ∨
    ∃ n, nearestOn tie m e step = some n ∧ 0 < n ∧ inside m e step n = true := by
  unfold nearestOn
  dsimp only
  split
  · next zero => exact .inl ⟨rfl, .inl zero⟩
  · next some =>
    have positive : 0 < below m e step := Nat.pos_of_ne_zero some
    have next : 0 < below m e step + 1 := Nat.succ_pos _
    split
    · next left _ => exact .inr ⟨_, rfl, positive, left⟩
    · next _ right => exact .inr ⟨_, rfl, next, right⟩
    · next left _ => exact .inl ⟨rfl, .inr left⟩
    · next left right =>
      right
      split
      · exact ⟨_, rfl, positive, left⟩
      · split
        · exact ⟨_, rfl, next, right⟩
        · cases tie with
          | up => exact ⟨_, rfl, next, right⟩
          | even =>
            dsimp only
            split
            · exact ⟨_, rfl, positive, left⟩
            · exact ⟨_, rfl, next, right⟩

/-- Something is found on a grid that is no coarser than a quarter of the distance to the next
    number. -/
theorem exists_nearestOn (tie : Tie) (positive : 0 < m)
    (fine : (scales e step).2 ≤ (scales e step).1) :
    ∃ n, nearestOn tie m e step = some n := by
  obtain ⟨unit, grid⟩ := scales_pos e step
  have low : below m e step * (scales e step).2 ≤ 4 * m * (scales e step).1 :=
    Nat.div_mul_le_self ..
  have high : 4 * m * (scales e step).1 < below m e step * (scales e step).2 + (scales e step).2 :=
    Nat.lt_div_mul_add grid
  have first : below m e step ≠ 0 := by
    intro zero
    rw [zero] at high
    nlinarith
  have bottom : lowEnd m e + 1 ≤ 4 * m := by
    unfold lowEnd
    split <;> omega
  have between : lowEnd m e * (scales e step).1 < below m e step * (scales e step).2 ∧
      below m e step * (scales e step).2 < (4 * m + 2) * (scales e step).1 := by
    constructor <;> nlinarith
  have found : inside m e step (below m e step) = true := by
    unfold inside
    split
    · exact decide_eq_true ⟨between.1.le, between.2.le⟩
    · exact decide_eq_true between
  rcases nearestOn_cases tie m e step with ⟨-, zero | outside⟩ | ⟨n, same, -, -⟩
  · exact absurd zero first
  · rw [found] at outside
    cases outside
  · exact ⟨n, same⟩

/-! ## All grids -/

/-- The search finds what one of its grids has. -/
theorem searchGrids_spec {count : Nat} {last : Int} (reached : last ≤ step)
    (near : step < last + count)
    (found : ∃ n, nearestOn tie m e last = some n) :
    0 < (searchGrids tie m e count step).coefficient ∧
      RoundsTo (searchGrids tie m e count step).value m e := by
  induction count generalizing step with
  | zero => omega
  | succ count ih =>
    rw [searchGrids]
    rcases nearestOn_cases tie m e step with ⟨nothing, -⟩ | ⟨n, same, positive, within⟩
    · have before : last ≠ step := by
        rintro rfl
        obtain ⟨n, same⟩ := found
        rw [nothing] at same
        cases same
      rw [nothing]
      exact ih (by omega) (by omega)
    · rw [same]
      exact ⟨positive, roundsTo_of_inside within⟩

/-- A power of ten is compared with a power of two by way of two powers of them that are close to
    each other. -/
theorem ten_zpow_le {s t : Int} (p q : Nat) (positive : p ≠ 0)
    (close : ((10 : ℚ) ^ p) ^ s ≤ (2 ^ q) ^ s)
    (less : q * s ≤ t * p) : (10 : ℚ) ^ s ≤ 2 ^ t := by
  refine le_of_pow_le_pow_left₀ positive (by positivity) ?_
  calc ((10 : ℚ) ^ s) ^ p = (10 ^ p) ^ s := by
        rw [← zpow_natCast, ← zpow_natCast, ← zpow_mul, ← zpow_mul, mul_comm]
    _ ≤ (2 ^ q) ^ s := close
    _ = 2 ^ (q * s) := by rw [← zpow_natCast, ← zpow_mul]
    _ ≤ 2 ^ (t * p) := zpow_le_zpow_right₀ one_le_two less
    _ = (2 ^ t) ^ p := by rw [zpow_mul, zpow_natCast]

/-- The power of ten that is taken for `2 ^ k` is not much greater than it. -/
theorem ten_zpow_magnitude_le {k : Int} (low : -1074 ≤ k) (high : k ≤ 1023) :
    (10 : ℚ) ^ (k * 30103 / 100000) ≤ 2 ^ (k + 5) := by
  by_cases sign : 0 ≤ k * 30103 / 100000
  · exact ten_zpow_le 3 10 (by decide) (zpow_le_zpow_left₀ sign (by norm_num) (by norm_num))
      (by omega)
  · exact ten_zpow_le 13 43 (by decide) (zpow_anti_left (by norm_num) (by norm_num) (by omega))
      (by omega)

/-- The last grid is finer than a quarter of the distance to the next number. -/
theorem scales_last_le (stored : Stored m e) :
    (scales e ((m.log2 + e) * 30103 / 100000 - 18)).2 ≤
      (scales e ((m.log2 + e) * 30103 / 100000 - 18)).1 := by
  have log := log2_le_of_lt stored.small
  have least := stored.least
  have greatest := stored.greatest
  rw [leastExponent] at least
  have power := ten_zpow_magnitude_le (k := m.log2 + e) (by omega) (by omega)
  obtain ⟨s, hs⟩ : ∃ s, s = (m.log2 + e) * 30103 / 100000 := ⟨_, rfl⟩
  rw [← hs] at power ⊢
  have quarter : (10 : ℚ) ^ (s - 18) ≤ 2 ^ (e - 2) := by
    calc (10 : ℚ) ^ (s - 18)
      _ = 10 ^ s * 10 ^ (-18 : Int) := by rw [sub_eq_add_neg, zpow_add₀ (by norm_num)]
      _ ≤ 2 ^ (m.log2 + e + 5) * 2 ^ (-59 : Int) :=
        mul_le_mul power (by norm_num) (by positivity) (by positivity)
      _ = 2 ^ (m.log2 + e + 5 + -59) := (zpow_add₀ two_ne_zero _ _).symm
      _ ≤ 2 ^ (e - 2) := zpow_le_zpow_right₀ one_le_two (by omega)
  have unit : (0 : ℚ) < (scales e (s - 18)).1 := by exact_mod_cast (scales_pos e (s - 18)).1
  have ratio := scales_ratio e (s - 18) 1
  have small : 4 * ((10 : ℚ) ^ (s - 18) / 2 ^ e) ≤ 1 := by
    rw [zpow_sub₀ two_ne_zero, le_div_iff₀ (by norm_num)] at quarter
    rw [mul_div_assoc', div_le_one₀ (by positivity)]
    linarith
  have scaled : ((scales e (s - 18)).2 : ℚ) ≤ (scales e (s - 18)).1 := by
    rw [Nat.cast_one, one_mul, one_mul] at ratio
    rw [ratio]
    exact mul_le_of_le_one_left unit.le small
  exact_mod_cast scaled

/-- The shortest decimal for a number lies in its interval. -/
theorem shortest_spec (tie : Tie) (stored : Stored m e) (positive : 0 < m) :
    0 < (shortest tie m e).coefficient ∧ RoundsTo (shortest tie m e).value m e := by
  have last := exists_nearestOn tie positive (scales_last_le stored)
  rw [shortest, if_neg positive.ne', ← Decimal.value_pos_iff, Decimal.value_trim,
    Decimal.value_pos_iff]
  exact searchGrids_spec (by omega) (by omega) last

end StackScript.Number
