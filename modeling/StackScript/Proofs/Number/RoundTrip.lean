import StackScript.Proofs.Number.Numerals
import StackScript.Proofs.Number.Search

/-!
# Printed numbers are read back

The text of a finite number is a numeral whose value is the shortest decimal of the number. Reading
takes a numeral for its value, wherever its point stands, and the decimal for the number.
-/

namespace StackScript.Number

open Json

/-! ## Digits -/

theorem digitsValue_eq_ofDigitChars (digits : List Char) :
    digitsValue digits = Nat.ofDigitChars 10 digits 0 :=
  Nat.ofDigitChars_eq_foldl.symm

/-- Digits before others count by a power of ten. -/
theorem digitsValue_append (l r : List Char) :
    digitsValue (l ++ r) = 10 ^ r.length * digitsValue l + digitsValue r := by
  rw [digitsValue_eq_ofDigitChars, digitsValue_eq_ofDigitChars, digitsValue_eq_ofDigitChars,
    Nat.ofDigitChars_append, Nat.ofDigitChars_eq_ofDigitChars_zero]

theorem digitsValue_toDigits (n : Nat) : digitsValue (Nat.toDigits 10 n) = n := by
  rw [digitsValue_eq_ofDigitChars, Nat.ofDigitChars_ten_toDigits]

theorem digitsValue_zeros (n : Nat) : digitsValue (List.replicate n '0') = 0 := by
  rw [digitsValue_eq_ofDigitChars, Nat.ofDigitChars_replicate_zero, Nat.mul_zero]

/-! ## Numerals -/

variable {whole fraction power : List Char}

theorem toLower_of_isDigit {c : Char} (h : c.isDigit = true) : c.toLower = c := by
  have digit : c.val.toNat ≤ 57 := (Char.isDigit_iff_toNat.mp h).2
  have small : ¬ (c.val ≥ 'A'.val ∧ c.val ≤ 'Z'.val) := by
    rintro ⟨capital, -⟩
    have : 65 ≤ c.val.toNat := UInt32.le_iff_toNat_le.mp capital
    omega
  exact dif_neg small

/-- A text that begins with a digit is none of the words for infinity and NaN. -/
theorem map_toLower_ne_word (h : IsDigits whole) (rest : List Char) {letter : Char}
    (noDigit : letter.isDigit = false)
    (word : List Char) : (whole ++ rest).map Char.toLower ≠ letter :: word := by
  cases whole with
  | nil => exact absurd rfl h.nonempty
  | cons c whole =>
    have digit := h.digits c (by simp)
    intro same
    rw [List.cons_append, List.map_cons, toLower_of_isDigit digit] at same
    injection same with first _
    rw [first, noDigit] at digit
    cases digit

theorem splitFraction_append (point : IsFraction fraction) (ends : EndsDigits power)
    (noPoint : power.head? ≠ some '.') :
    splitFraction (fraction ++ power) = (fraction.drop 1, power) := by
  cases point with
  | none =>
    rw [List.nil_append, splitFraction]
    · rfl
    · rintro rest rfl
      exact noPoint rfl
  | point digits =>
    rw [List.cons_append, splitFraction, List.span_eq_takeWhile_dropWhile,
      digits.takeWhile_append ends, digits.dropWhile_append ends]
    rfl

/-- A numeral is read as the decimal of its digits, with its point behind the last of them. -/
theorem readUnsigned?_numeral (digits : IsDigits whole) (point : IsFraction fraction)
    (isPower : IsPower power) :
    readUnsigned? (whole ++ fraction ++ power) = (readExponent? power).map fun p =>
      ofDecimal (digitsValue (whole ++ fraction.drop 1)) (p - (fraction.drop 1).length) := by
  obtain ⟨ends, noPoint⟩ := isPower.ends endsNumber_nil
  rw [List.append_nil] at ends noPoint
  have tail : EndsDigits (fraction ++ power) := point.ends ends
  have split : (whole ++ (fraction ++ power)).span Char.isDigit = (whole, fraction ++ power) := by
    rw [List.span_eq_takeWhile_dropWhile, digits.takeWhile_append tail,
      digits.dropWhile_append tail]
  have someWhole : ¬ (whole.isEmpty ∧ (fraction.drop 1).isEmpty) := by
    simp [digits.nonempty]
  rw [List.append_assoc, readUnsigned?]
  simp only [split, splitFraction_append point ends noPoint, if_neg someWhole]
  rw [if_neg, if_neg]
  · exact map_toLower_ne_word digits _ (by decide) _
  · rintro (word | word)
    · exact map_toLower_ne_word digits _ (by decide) _ word
    · exact map_toLower_ne_word digits _ (by decide) _ word

theorem readExponent?_digits {digits : List Char} (some : IsDigits digits) (negative : Bool) :
    readExponent? ('e' :: (if negative then '-' else '+') :: digits) =
      .some (if negative then -(digitsValue digits : Int) else digitsValue digits) := by
  have nonempty := some.nonempty
  have each := some.digits
  cases negative with
  | false => simpa [readExponent?, splitSign] using ⟨nonempty, each⟩
  | true => simpa [readExponent?, splitSign] using ⟨nonempty, each⟩

theorem readUnsigned?_point (before : IsDigits whole) (behind : IsDigits fraction) :
    readUnsigned? (whole ++ '.' :: fraction) =
      some (ofDecimal (digitsValue (whole ++ fraction)) (-fraction.length)) := by
  have read := readUnsigned?_numeral before (.point behind) .none
  rw [List.append_nil] at read
  rw [read]
  simp only [readExponent?, Option.map_some, List.drop_succ_cons, List.drop_zero, zero_sub]

/-! ## Decimals -/

section

variable {digits : List Char} (some : IsDigits digits)

include some

/-- Zeros and a fraction behind the digits. -/
theorem readUnsigned?_pointBehind (n : Nat) :
    readUnsigned? (digits ++ List.replicate n '0' ++ ['.', '0']) =
      .some (ofDecimal (10 ^ (n + 1) * digitsValue digits) (-1)) := by
  have value : digitsValue (digits ++ List.replicate n '0' ++ ['0']) =
      10 ^ (n + 1) * digitsValue digits := by
    rw [List.append_assoc, ← List.replicate_succ', digitsValue_append, digitsValue_zeros,
      List.length_replicate, add_zero]
  rw [readUnsigned?_point (isDigits_append_zeros some n) isDigits_zero, value]
  rfl

/-- A point among the digits. -/
theorem readUnsigned?_pointAmong {n : Nat} (positive : 0 < n) (inside : n < digits.length) :
    readUnsigned? (digits.take n ++ '.' :: digits.drop n) =
      .some (ofDecimal (digitsValue digits) (n - digits.length)) := by
  have exponent : (-(digits.length - n : Nat) : Int) = n - digits.length := by omega
  rw [readUnsigned?_point (isDigits_take some positive) (isDigits_drop some inside),
    List.take_append_drop, List.length_drop, exponent]

/-- A point and zeros before the digits. -/
theorem readUnsigned?_pointBefore (n : Nat) :
    readUnsigned? ('0' :: '.' :: (List.replicate n '0' ++ digits)) =
      .some (ofDecimal (digitsValue digits) (-(n + digits.length))) := by
  have value : digitsValue (['0'] ++ (List.replicate n '0' ++ digits)) = digitsValue digits := by
    have zeros : ['0'] ++ (List.replicate n '0' ++ digits) = List.replicate (n + 1) '0' ++ digits :=
      rfl
    rw [zeros, digitsValue_append, digitsValue_zeros, mul_zero, zero_add]
  have read := readUnsigned?_point isDigits_zero (isDigits_zeros_append some n)
  rw [value, List.length_append, List.length_replicate, Nat.cast_add] at read
  exact read

/-- A point behind the first digit, if there are others, and a power of ten. -/
theorem readUnsigned?_power (negative : Bool) (n : Nat) :
    readUnsigned? (digits.take 1 ++ (if digits.drop 1 = [] then [] else '.' :: digits.drop 1) ++
        'e' :: (if negative then '-' else '+') :: Nat.toDigits 10 n) =
      .some (ofDecimal (digitsValue digits)
        ((if negative then -(n : Int) else n) - (digits.length - 1))) := by
  have tail : (if digits.drop 1 = [] then [] else '.' :: digits.drop 1).drop 1 = digits.drop 1 := by
    split
    · next none => rw [none]; rfl
    · rfl
  have size : ((digits.length - 1 : Nat) : Int) = digits.length - 1 :=
    Int.natCast_pred_of_pos (List.length_pos_iff.mpr some.nonempty)
  have exponent := readExponent?_digits (isDigits_toDigits n) negative
  have power : IsPower ('e' :: (if negative then '-' else '+') :: Nat.toDigits 10 n) := by
    cases negative with
    | false => exact .mark (.inl rfl) (.inr (.inl rfl)) (isDigits_toDigits n)
    | true => exact .mark (.inl rfl) (.inr (.inr rfl)) (isDigits_toDigits n)
  have read := readUnsigned?_numeral (isDigits_take some Nat.one_pos) (isFraction_drop some) power
  rwa [exponent, tail, digitsValue_toDigits, List.take_append_drop, List.length_drop, size,
    Option.map_some] at read

end

/-- A number that is written without a power of ten is read as its digits say. -/
theorem readUnsigned?_positional {digits : String} (some : IsDigits digits.toList) (s : Int) :
    ∃ c t, readUnsigned? (Style.tree.positional digits (digits.length + s)).toList =
      .some (ofDecimal c t) ∧
      (c * 10 ^ t : ℚ) = digitsValue digits.toList * 10 ^ s := by
  have size : digits.length = digits.toList.length := String.length_toList.symm
  unfold Style.positional
  simp only [size]
  split
  · next behind =>
    obtain ⟨n, rfl⟩ := Int.eq_ofNat_of_zero_le (show 0 ≤ s by omega)
    refine ⟨10 ^ (n + 1) * digitsValue digits.toList, -1, ?_, ?_⟩
    · simpa [Style.tree, zeros] using readUnsigned?_pointBehind some n
    · push_cast
      rw [zpow_natCast, pow_succ, zpow_neg_one]
      field_simp
  · next inside =>
    split
    · next positive =>
      refine ⟨digitsValue digits.toList, s, ?_, rfl⟩
      have read :=
        readUnsigned?_pointAmong some (n := (digits.toList.length + s).toNat) (by omega) (by omega)
      have exponent : ((digits.toList.length + s).toNat - digits.toList.length : Int) = s := by
        omega
      rw [exponent] at read
      simpa using read
    · next before =>
      refine ⟨digitsValue digits.toList, s, ?_, rfl⟩
      have read := readUnsigned?_pointBefore some (-(digits.toList.length + s)).toNat
      have exponent : (-((-(digits.toList.length + s)).toNat + digits.toList.length) : Int) =
          s := by omega
      rw [exponent] at read
      simpa [zeros] using read

/-- A number that is written with a power of ten is read as its digits say. -/
theorem readUnsigned?_scientific {digits : String} (some : IsDigits digits.toList) (s : Int) :
    readUnsigned? (Style.tree.scientific digits (digits.length + s - 1)).toList =
      .some (ofDecimal (digitsValue digits.toList) s) := by
  have size : digits.toList.length = digits.length := String.length_toList
  unfold Style.scientific
  by_cases negative : digits.length + s - 1 < 0
  · have read := readUnsigned?_power some true (digits.length + s - 1).natAbs
    have exponent : (-((digits.length + s - 1).natAbs : Int) - (digits.length - 1)) = s := by omega
    rw [size, if_pos rfl, if_pos rfl, exponent] at read
    simpa [negative, toList_toString, apply_ite String.toList] using read
  · have read := readUnsigned?_power some false (digits.length + s - 1).natAbs
    have exponent : ((digits.length + s - 1).natAbs - (digits.length - 1) : Int) = s := by omega
    rw [size, if_neg Bool.false_ne_true, if_neg Bool.false_ne_true, exponent] at read
    simpa [negative, toList_toString, apply_ite String.toList, Style.tree] using read

/-- The text of a decimal is read as one of the same value. -/
theorem readUnsigned?_decimal (d : Decimal) :
    ∃ c t, readUnsigned? (Style.tree.decimal d).toList = some (ofDecimal c t) ∧
      (c * 10 ^ t : ℚ) = d.value := by
  have digits : IsDigits (toString d.coefficient).toList := by
    rw [toList_toString]
    exact isDigits_toDigits d.coefficient
  have value : digitsValue (toString d.coefficient).toList = d.coefficient := by
    rw [toList_toString, digitsValue_toDigits]
  have plain := readUnsigned?_positional digits d.exponent
  have power := readUnsigned?_scientific digits d.exponent
  rw [value] at plain power
  simp only [Style.decimal, Style.tree] at *
  split
  · exact plain
  · exact ⟨d.coefficient, d.exponent, power, rfl⟩

/-! ## Numbers -/

theorem splitSign_of_isUnsigned {text : List Char} (h : IsUnsigned text) :
    splitSign text = (false, text) := by
  obtain ⟨c, tail, rfl, digit⟩ := h.head
  unfold splitSign
  split
  · next same =>
    cases same
    cases digit
  · next same =>
    cases same
    cases digit
  · rfl

section

variable {m : Nat} {e : Int} (stored : Stored m e)

include stored

/-- The shortest digits are written as a numeral. -/
theorem isUnsigned_shortest (tie : Tie) :
    IsUnsigned (Style.tree.decimal (shortest tie m e)).toList := by
  refine isUnsigned_decimal ?_
  intro zero
  by_cases none : m = 0
  · rw [none]
    exact le_rfl
  · exact absurd zero (shortest_spec tie stored (Nat.pos_of_ne_zero none)).1.ne'

/-- The text of the shortest decimal of a number is read as the number. -/
theorem readUnsigned?_shortest (tie : Tie) :
    readUnsigned? (Style.tree.decimal (shortest tie m e)).toList = some (packed false m e) := by
  by_cases zero : m = 0
  · subst zero
    obtain rfl : e = leastExponent := stored.normal.resolve_left (by decide)
    have text : (Style.tree.decimal (shortest tie 0 leastExponent)).toList = ['0', '.', '0'] := by
      have nothing : shortest tie 0 leastExponent = ⟨0, 0⟩ := rfl
      rw [nothing]
      rfl
    have read : readUnsigned? ['0', '.', '0'] = some (ofDecimal 0 (-1)) :=
      readUnsigned?_point isDigits_zero isDigits_zero
    have same : ofDecimal 0 (-1) = packed false 0 leastExponent := eq_of_toNat_toBits (by decide)
    rw [text, read, same]
  · have positive : 0 < m := Nat.pos_of_ne_zero zero
    obtain ⟨nonzero, within⟩ := shortest_spec tie stored positive
    obtain ⟨c, t, read, value⟩ := readUnsigned?_decimal (shortest tie m e)
    have some : 0 < (⟨c, t⟩ : Decimal).value := by
      rw [Decimal.value, value]
      exact Decimal.value_pos_iff.mpr nonzero
    rw [← value] at within
    rw [read, within.ofDecimal stored positive (Decimal.value_pos_iff.mp some)]

end

/-- A finite number is a sign and a decimal. -/
theorem text_of_view {x : Float} {negative : Bool} {m : Nat} {e : Int}
    (h : view x = .finite negative m e) :
    (Style.tree.text x).toList =
      (if negative then ['-'] else []) ++
        (Style.tree.decimal (shortest Style.tree.tie m e)).toList := by
  rw [Style.text, h]
  cases negative <;> simp

/-- A finite number is read from the text in which it is printed. -/
theorem readsBack_of_isFinite {x : Float} (h : isFinite x = true) : ReadsBack x := by
  refine ⟨h, ?_⟩
  unfold isFinite at h
  cases parts : view x with
  | nan => simp [parts] at h
  | infinite negative => simp [parts] at h
  | finite negative m e =>
    have stored := stored_of_view parts
    have unsigned := isUnsigned_shortest stored Style.tree.tie
    have read := readUnsigned?_shortest stored Style.tree.tie
    rw [ofText?, text_of_view parts, eq_packed_of_view parts]
    cases negative with
    | false => simp [splitSign_of_isUnsigned unsigned, read]
    | true => simp [splitSign, read, neg_packed stored]

/-- Such a number is printed as a number of JSON. -/
theorem ReadsBack.isNumeral_text {x : Float} (h : ReadsBack x) :
    IsNumeral (Style.tree.text x).toList := by
  have finite := h.finite
  unfold isFinite at finite
  cases parts : view x with
  | nan => simp [parts] at finite
  | infinite negative => simp [parts] at finite
  | finite negative m e =>
    have unsigned := isUnsigned_shortest (stored_of_view parts) Style.tree.tie
    rw [text_of_view parts]
    cases negative with
    | false => exact .plain unsigned
    | true => exact .minus unsigned

end StackScript.Number
