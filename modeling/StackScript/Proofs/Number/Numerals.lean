import Mathlib.Data.List.Basic
import Mathlib.Data.List.TakeDrop
import StackScript.Number.Format
import StackScript.Number.Reading
import StackScript.Proofs.Json.Lexing

/-!
# Numbers in printed trees

A decimal is printed as a number of JSON, with its point among the digits or around them, or with a
power of ten.
-/

namespace StackScript.Number

open Json

/-! ## Digits -/

theorem isDigits_toDigits (n : Nat) : IsDigits (Nat.toDigits 10 n) where
  nonempty := Nat.toDigits_ne_nil
  digits _ mem := Nat.isDigit_of_mem_toDigits (by decide) (by decide) mem

theorem toList_toString (n : Nat) : (toString n).toList = Nat.toDigits 10 n := by
  rw [Nat.toString_eq_ofList_toDigits, String.toList_ofList]

/-- The first digit of a positive number is not zero. -/
theorem head?_toDigits {n : Nat} (h : n ≠ 0) : (Nat.toDigits 10 n).head? ≠ some '0' := by
  rw [Nat.toDigits_eq_if (by decide)]
  split
  · next small =>
    have single : ∀ n < 10, n ≠ 0 → [n.digitChar].head? ≠ some '0' := by decide
    exact single n small h
  · next large =>
    rw [List.head?_append_of_ne_nil _ Nat.toDigits_ne_nil]
    exact head?_toDigits (by omega)

theorem isDigits_zero : IsDigits ['0'] where
  nonempty := by simp
  digits c mem := by
    rw [List.mem_singleton.mp mem]
    decide

section

variable {digits text : List Char} (some : IsDigits digits)

include some

/-- Some of the digits, and zeros. -/
theorem isDigits_of_mem (nonempty : text ≠ []) (each : ∀ c ∈ text, c ∈ digits ∨ c = '0') :
    IsDigits text := by
  refine ⟨nonempty, ?_⟩
  intro c mem
  rcases each c mem with mem | rfl
  · exact some.digits c mem
  · decide

theorem isDigits_append_zeros (n : Nat) : IsDigits (digits ++ List.replicate n '0') := by
  refine isDigits_of_mem some (by simp [some.nonempty]) ?_
  simp +contextual [or_imp]

theorem isDigits_zeros_append (n : Nat) : IsDigits (List.replicate n '0' ++ digits) := by
  refine isDigits_of_mem some (by simp [some.nonempty]) ?_
  simp +contextual [or_imp]

theorem isDigits_take {n : Nat} (positive : 0 < n) : IsDigits (digits.take n) := by
  refine isDigits_of_mem some ?_ fun c mem => .inl (List.mem_of_mem_take mem)
  simp [some.nonempty, Nat.pos_iff_ne_zero.mp positive]

theorem isDigits_drop {n : Nat} (inside : n < digits.length) : IsDigits (digits.drop n) := by
  refine isDigits_of_mem some ?_ fun c mem => .inl (List.mem_of_mem_drop mem)
  simpa using inside

/-- All but the first digit make a fraction, if there are others. -/
theorem isFraction_drop : IsFraction (if digits.drop 1 = [] then [] else '.' :: digits.drop 1) := by
  split
  · exact .none
  · next more =>
      exact .point (isDigits_of_mem some more fun c mem => .inl (List.mem_of_mem_drop mem))

/-! ## Digits and a point -/

/-- All digits stand before the point. -/
theorem isUnsigned_pointBehind (n : Nat)
    (zero : digits.head? = .some '0' → digits = ['0'] ∧ n = 0) :
    IsUnsigned (digits ++ List.replicate n '0' ++ ['.', '0']) := by
  have leading : (digits ++ List.replicate n '0').head? = .some '0' →
      digits ++ List.replicate n '0' = ['0'] := by
    rw [List.head?_append_of_ne_nil _ some.nonempty]
    intro first
    obtain ⟨rfl, rfl⟩ := zero first
    rfl
  have numeral := IsUnsigned.mk (isDigits_append_zeros some n) leading (.point isDigits_zero) .none
  rwa [List.append_nil] at numeral

/-- The point stands among the digits. -/
theorem isUnsigned_pointAmong {n : Nat} (positive : 0 < n) (inside : n < digits.length)
    (zero : digits.head? = .some '0' → digits = ['0']) :
    IsUnsigned (digits.take n ++ '.' :: digits.drop n) := by
  have leading : (digits.take n).head? = .some '0' → digits.take n = ['0'] := by
    rw [List.head?_take, if_neg (by omega)]
    intro first
    have only := congrArg List.length (zero first)
    rw [List.length_singleton] at only
    omega
  have numeral :=
    IsUnsigned.mk (isDigits_take some positive) leading (.point (isDigits_drop some inside)) .none
  rwa [List.append_nil] at numeral

/-- All digits stand behind the point. -/
theorem isUnsigned_pointBefore (n : Nat) :
    IsUnsigned ('0' :: '.' :: (List.replicate n '0' ++ digits)) := by
  have numeral :=
    IsUnsigned.mk isDigits_zero (fun _ => rfl) (.point (isDigits_zeros_append some n)) .none
  rwa [List.append_nil] at numeral

/-- The point stands behind the first digit, if there are others, and a power of ten follows. -/
theorem isUnsigned_power {sign power : List Char} (signs : sign = [] ∨ sign = ['+'] ∨ sign = ['-'])
    (isPower : IsDigits power) :
    IsUnsigned (digits.take 1 ++ (if digits.drop 1 = [] then [] else '.' :: digits.drop 1) ++
      'e' :: (sign ++ power)) := by
  have leading : (digits.take 1).head? = .some '0' → digits.take 1 = ['0'] := by
    cases digits <;> simp
  exact .mk (isDigits_take some Nat.one_pos) leading (isFraction_drop some)
    (.mark (.inl rfl) signs isPower)

end

/-! ## Decimals -/

theorem isUnsigned_positional {digits : String} {whole : Int} (some : IsDigits digits.toList)
    (zero : digits.toList.head? = .some '0' → digits.toList = ['0'] ∧ whole ≤ 1) :
    IsUnsigned (Style.tree.positional digits whole).toList := by
  have size : digits.length = digits.toList.length := String.length_toList.symm
  unfold Style.positional
  simp only [size]
  split
  · next behind =>
    have nothing : digits.toList.head? = .some '0' → digits.toList = ['0'] ∧
        (whole - digits.toList.length).toNat = 0 := by
      intro first
      obtain ⟨only, small⟩ := zero first
      refine ⟨only, ?_⟩
      rw [only, List.length_singleton]
      omega
    have numeral := isUnsigned_pointBehind some _ nothing
    simpa [Style.tree, zeros] using numeral
  · next inside =>
    split
    · next positive =>
      have numeral := isUnsigned_pointAmong some (n := whole.toNat) (by omega)
        (by omega) fun first => (zero first).1
      simpa using numeral
    · next before =>
      have numeral := isUnsigned_pointBefore some (-whole).toNat
      simpa [zeros] using numeral

theorem isUnsigned_scientific {digits : String} (some : IsDigits digits.toList) (power : Int) :
    IsUnsigned (Style.tree.scientific digits power).toList := by
  have exponent := isDigits_toDigits power.natAbs
  have minus := isUnsigned_power some (.inr (.inr rfl)) exponent
  have plus := isUnsigned_power some (.inr (.inl rfl)) exponent
  unfold Style.scientific
  by_cases negative : power < 0
  · simpa [negative, toList_toString, apply_ite String.toList] using minus
  · simpa [negative, toList_toString, apply_ite String.toList, Style.tree] using plus

/-- The text of a decimal, unless it is a zero with zeros behind it. -/
theorem isUnsigned_decimal {d : Decimal} (h : d.coefficient = 0 → d.exponent ≤ 0) :
    IsUnsigned (Style.tree.decimal d).toList := by
  have shape := toList_toString d.coefficient
  have some : IsDigits (toString d.coefficient).toList := by
    rw [shape]
    exact isDigits_toDigits d.coefficient
  have zero : (toString d.coefficient).toList.head? = .some '0' →
      (toString d.coefficient).toList = ['0'] ∧
      (toString d.coefficient).length + d.exponent ≤ 1 := by
    rw [shape]
    intro first
    have nothing : d.coefficient = 0 := by
      by_contra positive
      exact head?_toDigits positive first
    rw [← String.length_toList, shape, nothing]
    have low := h nothing
    refine ⟨rfl, ?_⟩
    change (1 : Int) + d.exponent ≤ 1
    omega
  have plain := isUnsigned_positional some zero
  have power := isUnsigned_scientific some ((toString d.coefficient).length + d.exponent - 1)
  unfold Style.decimal
  change IsUnsigned (if _ then _ else _ : String).toList
  split
  · exact plain
  · exact power

/-- A finite number whose text in a printed tree is read as the same number, with the same sign if
    it is zero. -/
structure ReadsBack (x : Float) : Prop where
  finite : isFinite x = true
  back : ofText? (Style.tree.text x) = some x

end StackScript.Number
