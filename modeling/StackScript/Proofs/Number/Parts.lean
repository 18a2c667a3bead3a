import Mathlib.Tactic.Ring
import StackScript.Proofs.Number.Rounding

/-!
# The parts of a number

A finite number is put together from the sign, the mantissa and the exponent into which it is taken
apart.
-/

namespace StackScript.Number

open Float.Model
open Float.Model.UnpackedFloat

variable {negative : Bool} {m : Nat} {e : Int}

/-- The sign of a number. -/
def signOf (negative : Bool) : Sign := if negative then .negative else .positive

/-- A sign, a mantissa and an exponent as a number with no bits yet. -/
def unpacked (negative : Bool) (m : Nat) (e : Int) : UnpackedFloat :=
  if h : m = 0 then .zero (signOf negative)
    else .finite (signOf negative) m e (Nat.pos_of_ne_zero h)

theorem unpacked_of_pos (positive : 0 < m) :
    unpacked negative m e = .finite (signOf negative) m e positive :=
  dif_neg positive.ne'

/-! ## Bits -/

theorem toNat_packComponents (sign : Sign) (field : BitVec 11) (fraction : BitVec 52) :
    (packComponents .binary64 sign field fraction).toNat =
      sign.toBitVec.toNat * signBit + field.toNat * leastNormal + fraction.toNat := by
  have bits : (sign.toBitVec ++ field ++ fraction).toNat =
      (sign.toBitVec.toNat <<< 11 + field.toNat) <<< 52 + fraction.toNat := by
    rw [BitVec.toNat_append, ← Nat.shiftLeft_add_eq_or_of_lt fraction.isLt, BitVec.toNat_append,
      ← Nat.shiftLeft_add_eq_or_of_lt field.isLt]
  have shifts : signBit = 2 ^ 11 * 2 ^ 52 ∧ leastNormal = 2 ^ 52 := by decide
  rw [shifts.1, shifts.2]
  refine bits.trans ?_
  rw [Nat.shiftLeft_eq, Nat.shiftLeft_eq]
  ring

theorem toNat_signOf (negative : Bool) : (signOf negative).toBitVec.toNat = if negative then 1
    else 0 := by
  cases negative <;> rfl

/-- The first bit of a number gives its sign. -/
theorem ofBitVec_unpackSign (field : BitVec 11) (fraction : BitVec 52) :
    Sign.ofBitVec (unpackSign (packComponents .binary64 (signOf negative) field fraction)) =
      signOf negative := by
  have first : unpackSign (packComponents .binary64 (signOf negative) field fraction) =
      (signOf negative).toBitVec := by
    change ((signOf negative).toBitVec ++ field ++ fraction).extractLsb' 63 1 = _
    rw [BitVec.extractLsb'_append_eq_of_le (by decide),
      BitVec.extractLsb'_append_eq_of_le (by decide)]
    exact BitVec.extractLsb'_eq_self
  rw [first]
  cases negative <;> rfl

/-- The exponent as it stands in the bits. It is zero if the mantissa is too small for its first bit
    to be left out. -/
def fieldOf (m : Nat) (e : Int) : Nat :=
  if m < leastNormal then 0 else (e - leastExponent).toNat + 1

theorem fieldOf_lt (stored : Stored m e) : fieldOf m e < 2047 := by
  have := stored.greatest
  unfold fieldOf
  simp only [leastExponent]
  split <;> omega

theorem toNat_field (stored : Stored m e) :
    (BitVec.ofNat 11 (fieldOf m e)).toNat = fieldOf m e := by
  have := fieldOf_lt stored
  rw [BitVec.toNat_ofNat, Nat.mod_eq_of_lt (by omega)]

theorem toNat_fraction (stored : Stored m e) :
    (BitVec.ofNat 52 m).toNat = if m < leastNormal then m else m - leastNormal := by
  have small := stored.small
  change m % leastNormal = _
  split
  · next sub => exact Nat.mod_eq_of_lt sub
  · rw [Nat.mod_eq_sub_mod (by omega), Nat.mod_eq_of_lt (by omega)]

/-- The bits of a stored number. -/
theorem pack_unpacked (stored : Stored m e) :
    UnpackedFloat.pack .binary64 (unpacked negative m e) =
      packComponents .binary64 (signOf negative) (.ofNat 11 (fieldOf m e)) (.ofNat 52 m) := by
  obtain ⟨small, least, normal, greatest⟩ := stored
  by_cases zero : m = 0
  · subst zero
    cases negative <;> rfl
  · have biased :
        (e + Format.binary64.exponentBias + Format.binary64.mantissaBitsWithoutImplicit).toNat =
        (e - leastExponent).toNat + 1 := by
      change (e + 1023 + 52).toNat = (e - -1074).toNat + 1
      change -1074 ≤ e at least
      omega
    have fits : ¬ 2 ^ Format.binary64.exponentBits ≤ (e - leastExponent).toNat + 1 + 1 := by
      change ¬ 2048 ≤ (e - -1074).toNat + 1 + 1
      omega
    have bits : Format.binary64.mantissaBits = 53 := rfl
    rw [unpacked_of_pos (Nat.pos_of_ne_zero zero), fieldOf]
    delta UnpackedFloat.pack
    simp only [biased, bits, if_neg fits]
    by_cases sub : m < leastNormal
    · have log : m.log2 < 52 := (Nat.log2_lt zero).mpr sub
      rw [if_neg (by omega), if_pos sub]
    · have log : m.log2 = 52 := (Nat.log2_eq_iff zero).mpr ⟨Nat.not_lt.mp sub, small⟩
      rw [if_pos (by omega), if_neg sub]

/-! ## Taking apart and putting together -/

/-- The number with the given parts. -/
def packed (negative : Bool) (m : Nat) (e : Int) : Float :=
  .ofModel (.pack (unpacked negative m e))

theorem toNat_toBits_packed (stored : Stored m e) :
    (packed negative m e).toBits.toNat =
      (if negative then 1 else 0) * signBit + ((e - leastExponent).toNat * leastNormal + m) := by
  change (UnpackedFloat.pack .binary64 (unpacked negative m e)).toNat = _
  rw [pack_unpacked stored, toNat_packComponents, toNat_signOf, toNat_field stored,
    toNat_fraction stored, fieldOf]
  by_cases sub : m < leastNormal
  · rw [if_pos sub, if_pos sub, stored.normal.resolve_left (by omega)]
    simp
  · rw [if_neg sub, if_neg sub, Nat.add_mul]
    omega

/-- Two numbers with the same bits are the same. -/
theorem eq_of_toNat_toBits {x y : Float} (h : x.toBits.toNat = y.toBits.toNat) : x = y := by
  obtain ⟨⟨bits, _⟩⟩ := x
  obtain ⟨⟨bits', _⟩⟩ := y
  obtain rfl : bits = bits' := UInt64.toNat_inj.mp h
  rfl

/-- The parts of a finite number are those of a stored one. -/
theorem stored_of_view {x : Float} (h : view x = .finite negative m e) : Stored m e := by
  unfold view at h
  simp only at h
  have fraction := Nat.mod_lt x.toBits.toNat (show 0 < leastNormal by decide)
  have field := Nat.mod_lt (x.toBits.toNat / leastNormal) (show 0 < 2048 by decide)
  split at h
  · split at h <;> cases h
  · next small =>
    split at h
    · next zero =>
      cases h
      exact ⟨by omega, Int.le_refl _, .inr rfl, by decide⟩
    · next positive =>
      cases h
      refine ⟨by omega, by omega, .inl (by omega), ?_⟩
      change -1074 + _ ≤ _
      omega

/-- A finite number is put together from its parts. -/
theorem eq_packed_of_view {x : Float} (h : view x = .finite negative m e) :
    x = packed negative m e := by
  have stored := stored_of_view h
  apply eq_of_toNat_toBits
  rw [toNat_toBits_packed stored]
  have bound : x.toBits.toNat < 2 * signBit := x.toBits.toNat_lt
  have whole := Nat.div_add_mod' x.toBits.toNat leastNormal
  have parts := Nat.div_add_mod' (x.toBits.toNat / leastNormal) 2048
  have sign : x.toBits.toNat / leastNormal / 2048 = x.toBits.toNat / signBit :=
    Nat.div_div_eq_div_mul ..
  have top : x.toBits.toNat / signBit < 2 := Nat.div_lt_of_lt_mul (by omega)
  unfold view at h
  simp only at h
  have negatives (n : Nat) (less : n < 2) : (if (n == 1) = true then 1 else 0) = n := by
    obtain rfl | rfl : n = 0 ∨ n = 1 := by omega
    · rfl
    · rfl
  split at h
  · split at h <;> cases h
  · split at h
    · next zero =>
      cases h
      rw [negatives _ top, ← sign]
      simp only [leastNormal, signBit] at *
      omega
    · next positive =>
      cases h
      rw [negatives _ top, ← sign]
      simp only [leastNormal, signBit, leastExponent] at *
      omega

/-! ## Opposites -/

theorem toNat_one_append (fraction : BitVec 52) :
    (1#1 ++ fraction).toNat = leastNormal + fraction.toNat := by
  rw [BitVec.toNat_append, ← Nat.shiftLeft_add_eq_or_of_lt fraction.isLt]
  rfl

theorem finite_congr {sign : Sign} {k : Nat} {t : Int} {hk : 0 < k} {hm : 0 < m} (mantissa : k = m)
    (exponent : t = e) :
    UnpackedFloat.finite sign k t hk = .finite sign m e hm := by
  subst mantissa exponent
  rfl

/-- The parts of a stored number are found in its bits. -/
theorem unpack_pack (stored : Stored m e) :
    (Float.Model.pack (unpacked negative m e)).unpack = unpacked negative m e := by
  have hfield := toNat_field stored
  have hfraction := toNat_fraction stored
  have less := fieldOf_lt stored
  have finite : BitVec.ofNat 11 (fieldOf m e) ≠ -1#11 := by
    intro same
    have : (-1#11).toNat = 2047 := rfl
    rw [same] at hfield
    omega
  change UnpackedFloat.unpack .binary64 (UnpackedFloat.pack .binary64 (unpacked negative m e)) = _
  obtain ⟨b, bits⟩ : ∃ b, packComponents .binary64 (signOf negative) (.ofNat 11 (fieldOf m e))
      (.ofNat 52 m) = b := ⟨_, rfl⟩
  have sign : Sign.ofBitVec (unpackSign b) = signOf negative := bits ▸ ofBitVec_unpackSign _ _
  have exponent : unpackExponent b = .ofNat 11 (fieldOf m e) :=
    bits ▸ unpackExponent_packComponents
  have mantissa : unpackMantissa b = .ofNat 52 m := bits ▸ unpackMantissa_packComponents
  rw [pack_unpacked stored, bits]
  delta UnpackedFloat.unpack
  dsimp only
  rw [sign, exponent, if_neg finite]
  rw [← mantissa] at hfraction
  obtain ⟨small, least, normal, greatest⟩ := stored
  have bias : (Format.binary64.exponentBias + (52 : Nat) : Int) = 1 - leastExponent := rfl
  by_cases sub : m < leastNormal
  · have field : fieldOf m e = 0 := if_pos sub
    have isLeast : e = leastExponent := normal.resolve_left (by omega)
    rw [if_pos sub] at hfraction
    rw [if_pos (by rw [field])]
    by_cases zero : m = 0
    · subst zero
      exact dif_pos mantissa
    · have nonzero : unpackMantissa b ≠ 0#52 := by
        intro same
        rw [same] at hfraction
        exact zero hfraction.symm
      rw [dif_neg nonzero, unpacked_of_pos (Nat.pos_of_ne_zero zero)]
      refine finite_congr hfraction ?_
      rw [hfield, field, bias, isLeast]
      omega
  · have field : fieldOf m e = (e - leastExponent).toNat + 1 := if_neg sub
    have nonzero : BitVec.ofNat 11 (fieldOf m e) ≠ 0#11 := by
      intro same
      rw [same] at hfield
      have : (0#11).toNat = 0 := rfl
      omega
    have positive : 0 < m := Nat.lt_of_lt_of_le (by decide) (Nat.not_lt.mp sub)
    rw [if_neg sub] at hfraction
    rw [if_neg nonzero, unpacked_of_pos positive]
    refine finite_congr ?_ ?_
    · rw [toNat_one_append, hfraction]
      omega
    · rw [hfield, field, bias]
      omega

theorem neg_unpacked : (unpacked negative m e).neg = unpacked (!negative) m e := by
  by_cases zero : m = 0
  · rw [unpacked, unpacked, dif_pos zero, dif_pos zero]
    cases negative <;> rfl
  · rw [unpacked, unpacked, dif_neg zero, dif_neg zero]
    cases negative <;> rfl

/-- The opposite of a stored number. -/
theorem neg_packed (stored : Stored m e) : -packed negative m e = packed (!negative) m e := by
  change Float.ofModel (.pack (Float.Model.pack (unpacked negative m e)).unpack.neg) = _
  rw [unpack_pack stored, neg_unpacked]
  rfl

end StackScript.Number
