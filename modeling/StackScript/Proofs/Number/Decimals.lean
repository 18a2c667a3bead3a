import Mathlib.Tactic.FieldSimp
import StackScript.Number.Reading
import StackScript.Proofs.Number.Parts

/-!
# Reading a decimal

A decimal is read as the number to whose interval it belongs. It is a product or a quotient of two
numbers that are exact, whether they are multiplied and divided as numbers of the script language or
with as many bits as it takes.
-/

namespace StackScript.Number

open Float.Model
open Float.Model.UnpackedFloat

variable {x : ℚ} {m : Nat} {e : Int} {m₁ m₂ : Nat} {e₁ e₂ : Int}

/-! ## Products and quotients -/

/-- The mantissas are so long that their product is not too short. -/
theorem RoundsTo.mul (h : RoundsTo (m₁ * 2 ^ e₁ * (m₂ * 2 ^ e₂)) m e) (stored : Stored m e)
    (positive : 0 < m)
    (long : 2 * leastNormal ≤ m₁ * m₂) (h₁ : 0 < m₁) (h₂ : 0 < m₂) :
    mul .binary64 (.finite .positive m₁ e₁ h₁) (.finite .positive m₂ e₂ h₂) =
      .finite .positive m e positive := by
  have log : 53 ≤ (m₁ * m₂).log2 := (Nat.le_log2 (Nat.mul_pos h₁ h₂).ne').mpr long
  have fine : e₁ + e₂ ≤ target (m₁ * m₂) (e₁ + e₂) := by
    rw [target]
    omega
  have lies : Lies (m₁ * 2 ^ e₁ * (m₂ * 2 ^ e₂) / 2 ^ (e₁ + e₂)) (m₁ * m₂) .exact := by
    refine .exact ?_
    rw [zpow_add₀ two_ne_zero, div_eq_iff (by positivity)]
    push_cast
    ring
  exact h.roundWithAccuracy stored positive .positive fine lies

/-- The dividend is made long enough for the quotient. -/
theorem RoundsTo.div (h : RoundsTo (m₁ * 2 ^ e₁ / (m₂ * 2 ^ e₂)) m e) (stored : Stored m e)
    (positive : 0 < m)
    (h₁ : 0 < m₁) (h₂ : 0 < m₂) :
    div .binary64 (.finite .positive m₁ e₁ h₁) (.finite .positive m₂ e₂ h₂) =
      .finite .positive m e positive := by
  have total : Format.binary64.targetExponent (totalExponent m₁ e₁ - totalExponent m₂ e₂) =
      max (m₁.log2 + e₁ - (m₂.log2 + e₂) - 53) leastExponent := by
    have bits : (Format.binary64.mantissaBits : Int) = 53 := rfl
    have least : Format.binary64.minExponent = leastExponent := rfl
    rw [Format.targetExponent, totalExponent, totalExponent, bits, least]
    congr 1
    omega
  obtain ⟨t, ht⟩ : ∃ t, t =
      min (e₁ - e₂) (max (m₁.log2 + e₁ - (m₂.log2 + e₂) - 53) leastExponent) := ⟨_, rfl⟩
  obtain ⟨k, hk⟩ : ∃ k : Nat, e₁ - e₂ = t + k := ⟨(e₁ - e₂ - t).toNat, by omega⟩
  have core : divCore .binary64 m₁ e₁ m₂ e₂ =
      (m₁ * 2 ^ k / m₂, t, accuracyOfFraction (m₁ * 2 ^ k % m₂) m₂) := by
    have amount : (e₁ - e₂ - t).toNat = k := by omega
    simp only [divCore, total, ← ht, amount, Nat.shiftLeft_eq]
  change UnpackedFloat.roundWithAccuracy .binary64 .positive (divCore .binary64 m₁ e₁ m₂ e₂).1
    (divCore .binary64 m₁ e₁ m₂ e₂).2.1 (divCore .binary64 m₁ e₁ m₂ e₂).2.2 = _
  rw [core]
  dsimp only
  refine h.roundWithAccuracy stored positive .positive ?_ ((lies_div _ h₂).congr ?_ rfl rfl)
  · by_cases low : t ≤ leastExponent
    · exact low.trans (le_max_right ..)
    · -- Enough bits are added for the quotient to have 53 of them at least.
      have enough : m₂.log2 + 1 + 52 ≤ m₁.log2 + k := by omega
      have long : 2 ^ 52 * m₂ ≤ m₁ * 2 ^ k := by
        calc 2 ^ 52 * m₂ ≤ 2 ^ 52 * 2 ^ (m₂.log2 + 1) := Nat.mul_le_mul_left _ Nat.lt_log2_self.le
          _ = 2 ^ (m₂.log2 + 1 + 52) := by rw [mul_comm, ← pow_add]
          _ ≤ 2 ^ (m₁.log2 + k) := Nat.pow_le_pow_right two_pos enough
          _ = 2 ^ m₁.log2 * 2 ^ k := pow_add ..
          _ ≤ m₁ * 2 ^ k := Nat.mul_le_mul_right _ (Nat.log2_self_le h₁.ne')
      have quotient : 2 ^ 52 ≤ m₁ * 2 ^ k / m₂ := (Nat.le_div_iff_mul_le h₂).mpr long
      have log : 52 ≤ (m₁ * 2 ^ k / m₂).log2 :=
        (Nat.le_log2 (Nat.pos_of_ne_zero (by omega)).ne').mpr quotient
      rw [target]
      omega
  · have hm₂ : (m₂ : ℚ) ≠ 0 := by exact_mod_cast h₂.ne'
    have shift : (2 : ℚ) ^ e₁ = 2 ^ e₂ * (2 ^ t * 2 ^ k) := by
      rw [← zpow_natCast, ← zpow_add₀ two_ne_zero, ← zpow_add₀ two_ne_zero]
      congr 1
      omega
    push_cast
    rw [shift]
    field_simp

/-! ## Bounds of an interval -/

theorem zpow_anti_left {a b : ℚ} (positive : 0 < a) (h : a ≤ b) {n : Int} (hn : n ≤ 0) :
    b ^ n ≤ a ^ n := by
  have powers := zpow_le_zpow_left₀ (neg_nonneg.mpr hn) positive.le h
  rwa [zpow_neg, zpow_neg, inv_le_inv₀ (by positivity) (zpow_pos (positive.trans_le h) n)] at powers

theorem RoundsTo.lt_two_zpow (h : RoundsTo x m e) (stored : Stored m e) : x < 2 ^ (53 + e) := by
  have high := h.high
  have small : (m : ℚ) + 1 ≤ 2 * leastNormal := by exact_mod_cast stored.small
  have scaled : x / 2 ^ e < 2 * leastNormal := by linarith
  have power : (2 * leastNormal : ℚ) = 2 ^ (53 : Int) := by norm_num [leastNormal]
  rwa [power, div_lt_iff₀ (by positivity), ← zpow_add₀ two_ne_zero] at scaled

theorem RoundsTo.two_zpow_le (h : RoundsTo x m e) (positive : 0 < m) : 2 ^ (e - 1) ≤ x := by
  have low := h.low
  have bottom := le_lowEnd (e := e) positive
  have one : (1 : ℚ) ≤ m := by exact_mod_cast positive
  have scaled : 1 / 2 ≤ x / 2 ^ e := by linarith
  rw [le_div_iff₀ (by positivity)] at scaled
  rw [zpow_sub₀ two_ne_zero, zpow_one]
  linarith

/-! ## Decimals -/

variable {c : Nat} {s : Int}

/-- A decimal that is read as a finite number has no greater power of ten than one that is
    computed. -/
theorem RoundsTo.power_le (h : RoundsTo (c * 10 ^ s) m e) (stored : Stored m e) (nonzero : 0 < c) :
    s ≤ 2048 := by
  by_contra more
  have one : (1 : ℚ) ≤ c := by exact_mod_cast nonzero
  have below : (2 : ℚ) ^ s < 2 ^ (53 + e) := by
    calc (2 : ℚ) ^ s ≤ 10 ^ s := zpow_le_zpow_left₀ (by omega) (by norm_num) (by norm_num)
      _ ≤ c * 10 ^ s := le_mul_of_one_le_left (by positivity) one
      _ < 2 ^ (53 + e) := h.lt_two_zpow stored
  have := (zpow_lt_zpow_iff_right₀ one_lt_two).mp below
  have := stored.greatest
  omega

theorem RoundsTo.le_power (h : RoundsTo (c * 10 ^ s) m e) (stored : Stored m e) (positive : 0 < m) :
    -(2048 + c.log2 : Int) ≤ s := by
  by_contra less
  have digits : (c : ℚ) < 2 ^ (c.log2 + 1) := by exact_mod_cast Nat.lt_log2_self
  have below : (2 : ℚ) ^ (e - 1) < 2 ^ (c.log2 + 1 + s : Int) := by
    calc (2 : ℚ) ^ (e - 1) ≤ c * 10 ^ s := h.two_zpow_le positive
      _ < 2 ^ (c.log2 + 1) * 10 ^ s := mul_lt_mul_of_pos_right digits (by positivity)
      _ ≤ 2 ^ (c.log2 + 1) * 2 ^ s :=
        mul_le_mul_of_nonneg_left (zpow_anti_left two_pos (by norm_num) (by omega)) (by positivity)
      _ = 2 ^ (c.log2 + 1 + s : Int) := by
        rw [zpow_add₀ two_ne_zero]
        norm_cast
  have := (zpow_lt_zpow_iff_right₀ one_lt_two).mp below
  have least := stored.least
  rw [leastExponent] at least
  omega

/-- A decimal that is computed with as many bits as it takes. -/
theorem RoundsTo.ofScientific (h : RoundsTo (c * 10 ^ s) m e) (stored : Stored m e)
    (positive : 0 < m) (nonzero : 0 < c) :
    ofScientific .binary64 c s = .finite .positive m e positive := by
  have high : ¬ s > 2 ^ Format.binary64.exponentBits := by
    have := h.power_le stored nonzero
    change ¬ s > 2048
    omega
  have low : ¬ s < -((2 ^ Format.binary64.exponentBits : Int) + c.log2) := by
    have := h.le_power stored positive
    change ¬ s < -(2048 + c.log2 : Int)
    omega
  rw [UnpackedFloat.ofScientific, dif_neg nonzero.ne', if_neg high, if_neg low]
  by_cases whole : 0 ≤ s
  · rw [if_pos whole]
    have bits : Format.binary64.mantissaBits = 53 := rfl
    refine RoundsTo.mul ?_ stored positive ?_ _ _
    · convert h using 1
      rw [bits, Nat.shiftLeft_eq, zpow_zero, mul_one]
      have cancel : (9007199254740992 : ℚ) * 2 ^ (-53 : Int) = 1 := by norm_num
      push_cast
      rw [← zpow_natCast 10 s.toNat, Int.toNat_of_nonneg whole, mul_assoc (c : ℚ), cancel, mul_one]
    · rw [bits, Nat.shiftLeft_eq]
      calc 2 * leastNormal = 1 * 2 ^ 53 * 1 := rfl
        _ ≤ c * 2 ^ 53 * 10 ^ s.toNat :=
          Nat.mul_le_mul (Nat.mul_le_mul_right _ nonzero) (Nat.pow_pos (by decide))
  · rw [if_neg whole]
    refine RoundsTo.div ?_ stored positive _ _
    convert h using 1
    rw [zpow_zero, mul_one, mul_one, div_eq_mul_inv, ← neg_neg s, zpow_neg]
    push_cast
    rw [← zpow_natCast, Int.toNat_of_nonneg (by omega), neg_neg]

/-! ## Whole numbers that are exact -/

/-- A whole number with a mantissa of the full length is exact. -/
structure IsExact (x : Float) (n m : Nat) (e : Int) : Prop where
  stored : Stored m e
  long : leastNormal ≤ m
  same : (m * 2 ^ e : ℚ) = n
  packed : x = packed false m e

theorem roundWithAccuracy_stored (stored : Stored m e) (positive : 0 < m) (sign : Sign) :
    roundWithAccuracy .binary64 sign m e .exact = .finite sign m e positive := by
  have shifted := shiftToTargetExponent_exact stored.small stored.least
  exact roundWithAccuracy_of_shifted shifted shifted positive sign

/-- A whole number that is short enough is exact. -/
theorem exists_isExact_toFloat (nonzero : 0 < c) (small : c < 2 * leastNormal) :
    ∃ m e, IsExact c.toUInt64.toFloat c m e := by
  have log := log2_le_of_lt small
  have below : c * 2 ^ (52 - c.log2) < 2 * leastNormal := by
    calc c * 2 ^ (52 - c.log2) < 2 ^ (c.log2 + 1) * 2 ^ (52 - c.log2) :=
          Nat.mul_lt_mul_of_pos_right Nat.lt_log2_self (Nat.two_pow_pos _)
      _ = 2 ^ 53 := by
        rw [← pow_add]
        congr 1
        omega
  have above : leastNormal ≤ c * 2 ^ (52 - c.log2) := by
    calc leastNormal = 2 ^ (c.log2 + (52 - c.log2)) := by rw [Nat.add_sub_of_le log]; rfl
      _ = 2 ^ c.log2 * 2 ^ (52 - c.log2) := pow_add ..
      _ ≤ c * 2 ^ (52 - c.log2) := Nat.mul_le_mul_right _ (Nat.log2_self_le nonzero.ne')
  have positive : 0 < c * 2 ^ (52 - c.log2) := Nat.mul_pos nonzero (Nat.two_pow_pos _)
  have stored : Stored (c * 2 ^ (52 - c.log2)) (c.log2 - 52) :=
    ⟨below, by rw [leastExponent]; omega, .inl above, by omega⟩
  refine ⟨c * 2 ^ (52 - c.log2), c.log2 - 52, stored, above, ?_, ?_⟩
  · push_cast
    rw [mul_assoc, ← zpow_natCast, ← zpow_add₀ two_ne_zero, Nat.cast_sub log]
    simp
  · have word : c.toUInt64.toNat = c := by
      change c % 18446744073709551616 = c
      rw [leastNormal] at small
      omega
    have rounded : UnpackedFloat.ofUInt64 .binary64 c.toUInt64 =
        unpacked false (c * 2 ^ (52 - c.log2)) (c.log2 - 52) := by
      rw [UnpackedFloat.ofUInt64, word, UnpackedFloat.ofNat, UnpackedFloat.ofInt,
        UnpackedFloat.normalize, Int.compare_eq_gt.mpr (by exact_mod_cast nonzero)]
      have exponent : target c 0 = c.log2 - 52 := by
        rw [target, leastExponent]
        omega
      have amount : (0 - (c.log2 - 52 : Int)).toNat = 52 - c.log2 := by omega
      have shifted : (0 - (52 - c.log2 : Nat) : Int) = c.log2 - 52 := by omega
      simp only [Int.toNat_natCast, UnpackedFloat.round, targetExponent_totalExponent, exponent,
        decreaseExponent, amount, Nat.shiftLeft_eq, shifted]
      rw [unpacked_of_pos positive]
      exact roundWithAccuracy_stored stored positive .positive
    rw [packed, ← rounded]
    rfl

/-- The powers of ten that are given by their bits. -/
theorem exists_isExact_power (n : Fin 23) :
    ∃ m e, IsExact Float.exactlyRepresentablePowersOfTen[n] (10 ^ n.val) m e := by
  have bits : ∀ n : Fin 23, Float.exactlyRepresentablePowersOfTen[n].toBits.toNat =
      ((10 ^ n.val).log2 + 1022) * leastNormal +
        10 ^ n.val * leastNormal / 2 ^ (10 ^ n.val).log2 := by decide +kernel
  have parts : ∀ n : Fin 23, leastNormal ≤ 10 ^ n.val * leastNormal / 2 ^ (10 ^ n.val).log2 ∧
      10 ^ n.val * leastNormal / 2 ^ (10 ^ n.val).log2 < 2 * leastNormal ∧
      10 ^ n.val * leastNormal / 2 ^ (10 ^ n.val).log2 * 2 ^ (10 ^ n.val).log2 =
        10 ^ n.val * leastNormal ∧
      (10 ^ n.val).log2 ≤ 1023 := by decide +kernel
  specialize bits n
  specialize parts n
  generalize Nat.log2 (10 ^ n.val) = log at bits parts
  generalize 10 ^ n.val * leastNormal / 2 ^ log = m at bits parts
  obtain ⟨long, small, same, least⟩ := parts
  have stored : Stored m (log - 52) := ⟨small, by rw [leastExponent]; omega, .inl long, by omega⟩
  refine ⟨m, log - 52, stored, long, ?_, eq_of_toNat_toBits ?_⟩
  · have cast : (m : ℚ) * 2 ^ log = 10 ^ n.val * leastNormal := by exact_mod_cast same
    have power : (leastNormal : ℚ) = 2 ^ (52 : Int) := by norm_num [leastNormal]
    rw [zpow_sub₀ two_ne_zero, ← power, zpow_natCast, mul_div_assoc', cast]
    rw [power]
    push_cast
    field_simp
  · have field : (log - 52 - leastExponent : Int).toNat = log + 1022 := by
      rw [leastExponent]
      omega
    rw [bits, toNat_toBits_packed stored, field]
    simp

/-! ## Numbers that are read -/

theorem IsExact.positive {x : Float} {n : Nat} (h : IsExact x n m e) : 0 < m :=
  Nat.lt_of_lt_of_le (by decide) h.long

theorem IsExact.unpack {x : Float} {n : Nat} (h : IsExact x n m e) :
    x.toModel.unpack = .finite .positive m e h.positive := by
  have parts : unpacked false m e = .finite .positive m e h.positive := unpacked_of_pos h.positive
  rw [← parts, h.packed]
  exact unpack_pack h.stored

/-- A decimal is read as the number to whose interval it belongs. -/
theorem RoundsTo.ofDecimal (h : RoundsTo (c * 10 ^ s) m e) (stored : Stored m e) (positive : 0 < m)
    (nonzero : 0 < c) :
    ofDecimal c s = packed false m e := by
  have result : Float.ofModel (.pack (.finite .positive m e positive)) = packed false m e := by
    rw [packed, unpacked_of_pos positive]
    rfl
  rw [Number.ofDecimal, Float.ofScientific]
  split
  · next short =>
    obtain ⟨small, few⟩ := short
    obtain ⟨m₁, e₁, whole⟩ := exists_isExact_toFloat nonzero small
    obtain ⟨m₂, e₂, power⟩ := exists_isExact_power ⟨s.natAbs, by omega⟩
    by_cases sign : s < 0
    · have value : RoundsTo (m₁ * 2 ^ e₁ / (m₂ * 2 ^ e₂)) m e := by
        convert h using 1
        rw [whole.same, power.same]
        push_cast
        rw [← zpow_natCast, Int.ofNat_natAbs_of_nonpos sign.le, zpow_neg, div_inv_eq_mul]
      have quotient := value.div stored positive whole.positive power.positive
      rw [← whole.unpack, ← power.unpack] at quotient
      rw [if_pos (by simpa using sign), ← result, ← quotient]
      rfl
    · have value : RoundsTo (m₁ * 2 ^ e₁ * (m₂ * 2 ^ e₂)) m e := by
        convert h using 1
        rw [whole.same, power.same]
        push_cast
        rw [← zpow_natCast, Int.natAbs_of_nonneg (Int.not_lt.mp sign)]
      have long : 2 * leastNormal ≤ m₁ * m₂ :=
        (by decide : 2 * leastNormal ≤ leastNormal * leastNormal).trans
          (Nat.mul_le_mul whole.long power.long)
      have product := value.mul stored positive long whole.positive power.positive
      rw [← whole.unpack, ← power.unpack] at product
      rw [if_neg (by simpa using sign), ← result, ← product]
      rfl
  · have exponent : (if decide (s < 0) then Int.negOfNat s.natAbs else Int.ofNat s.natAbs) = s := by
      simp only [Int.negOfNat_eq, Int.ofNat_eq_natCast, decide_eq_true_eq]
      split <;> omega
    simp only [exponent]
    rw [← result, ← h.ofScientific stored positive nonzero]
    rfl

end StackScript.Number
