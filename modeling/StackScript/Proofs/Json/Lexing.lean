import StackScript.Proofs.Json.Strings

/-!
# Tokens in a text

A text is a list of tokens when they are spelled in it one after the other, with spaces between them
at will and each string written in any way. Such a text is cut into these tokens again. A number
ends only where the text cannot go on with it, so the token behind a number matters; every other
token ends by itself.
-/

namespace StackScript.Json

/-! ## Numerals -/

/-- One digit or more. -/
structure IsDigits (text : List Char) : Prop where
  nonempty : text ≠ []
  digits : ∀ c ∈ text, c.isDigit = true

/-- Nothing, or a point with digits behind it. -/
inductive IsFraction : List Char → Prop
  | none : IsFraction []
  | point {digits : List Char} : IsDigits digits → IsFraction ('.' :: digits)

/-- Nothing, or a power of ten with its mark and perhaps a sign. -/
inductive IsPower : List Char → Prop
  | none : IsPower []
  | mark {mark : Char} {sign digits : List Char} : mark = 'e' ∨ mark = 'E' →
      sign = [] ∨ sign = ['+'] ∨ sign = ['-'] → IsDigits digits → IsPower (mark :: (sign ++ digits))

/-- Digits of which the first is a zero only if it is the only one, and then perhaps a fraction and
    a power of ten. -/
inductive IsUnsigned : List Char → Prop
  | mk {whole fraction power : List Char} :
      IsDigits whole → (whole.head? = some '0' → whole = ['0']) →
      IsFraction fraction → IsPower power → IsUnsigned (whole ++ fraction ++ power)

/-- The numbers of JSON. -/
inductive IsNumeral : List Char → Prop
  | plain {text : List Char} : IsUnsigned text → IsNumeral text
  | minus {text : List Char} : IsUnsigned text → IsNumeral ('-' :: text)

/-- A text that does not go on with the digits before it. -/
def EndsDigits (text : List Char) : Prop :=
  ∀ c ∈ text.head?, c.isDigit = false

/-- A text that does not go on with the number before it. -/
structure EndsNumber (text : List Char) : Prop where
  digits : EndsDigits text
  point : text.head? ≠ some '.'
  power : text.head? ≠ some 'e' ∧ text.head? ≠ some 'E'

theorem endsNumber_nil : EndsNumber [] :=
  ⟨by simp [EndsDigits], by simp, by simp⟩

theorem endsNumber_cons {c : Char} {text : List Char} (digit : c.isDigit = false) (point : c ≠ '.')
    (power : c ≠ 'e' ∧ c ≠ 'E') : EndsNumber (c :: text) :=
  ⟨by simpa [EndsDigits] using digit, by simpa using point, by simpa using power⟩

/-! ## Scanning numbers -/

section

variable {text rest : List Char}

/-- Digits are read up to what ends them. -/
theorem IsDigits.takeWhile_append (h : IsDigits text) (ends : EndsDigits rest) :
    (text ++ rest).takeWhile Char.isDigit = text := by
  rw [List.takeWhile_append_of_pos h.digits]
  cases rest with
  | nil => simp
  | cons c rest => simp [ends c (by simp)]

theorem IsDigits.dropWhile_append (h : IsDigits text) (ends : EndsDigits rest) :
    (text ++ rest).dropWhile Char.isDigit = rest := by
  rw [List.dropWhile_append_of_pos h.digits]
  cases rest with
  | nil => rfl
  | cons c rest => simp [ends c (by simp)]

/-- The whole part is read up to what ends it. -/
theorem scanWhole?_append (h : IsDigits text) (zero : text.head? = some '0' → text = ['0'])
    (ends : EndsDigits rest) : scanWhole? (text ++ rest) = some (text, rest) := by
  unfold scanWhole?
  rw [h.takeWhile_append ends, h.dropWhile_append ends]
  match text with
  | [] => exact absurd rfl h.nonempty
  | [c] => simp
  | c :: d :: digits =>
    have first : c ≠ '0' := by
      rintro rfl
      simpa using zero rfl
    simp [first]

/-- The fraction is read up to what ends it. -/
theorem scanFraction?_append (h : IsFraction text) (ends : EndsDigits rest)
    (point : rest.head? ≠ some '.') :
    scanFraction? (text ++ rest) = some (text, rest) := by
  cases h with
  | none =>
    rw [List.nil_append, scanFraction?]
    rintro tail rfl
    simp at point
  | @point digits some =>
    rw [List.cons_append, scanFraction?, some.takeWhile_append ends, some.dropWhile_append ends]
    cases digits with
    | nil => exact absurd rfl some.nonempty
    | cons c digits => rfl

theorem splitPowerSign_append {sign : List Char} (h : sign = [] ∨ sign = ['+'] ∨ sign = ['-'])
    (some : IsDigits text) : splitPowerSign (sign ++ (text ++ rest)) = (sign, text ++ rest) := by
  rcases h with rfl | rfl | rfl
  · cases text with
    | nil => exact absurd rfl some.nonempty
    | cons c text =>
      have digit := some.digits c (by simp)
      simp only [List.nil_append, List.cons_append]
      rw [splitPowerSign]
      · rintro tail ⟨rfl, -⟩
        simp at digit
      · rintro tail ⟨rfl, -⟩
        simp at digit
  · rfl
  · rfl

/-- The power is read up to what ends the number. -/
theorem scanPower?_append (h : IsPower text) (ends : EndsNumber rest) :
    scanPower? (text ++ rest) = some (text, rest) := by
  cases h with
  | none =>
    cases rest with
    | nil => rfl
    | cons c rest =>
      have other : ¬(c = 'e' ∨ c = 'E') := by simpa using ends.power
      simp [scanPower?, other]
  | @mark mark sign digits letter signs some =>
    simp only [List.cons_append, List.append_assoc, scanPower?, letter, if_true,
      splitPowerSign_append signs some, some.takeWhile_append ends.digits,
      some.dropWhile_append ends.digits]
    cases digits with
    | nil => exact absurd rfl some.nonempty
    | cons c digits => rfl

theorem IsPower.ends (h : IsPower text) (ends : EndsNumber rest) :
    EndsDigits (text ++ rest) ∧ (text ++ rest).head? ≠ some '.' := by
  cases h with
  | none => exact ⟨ends.digits, ends.point⟩
  | mark letter _ _ => rcases letter with rfl | rfl <;> simp [EndsDigits]

theorem IsFraction.ends (h : IsFraction text) (ends : EndsDigits rest) :
    EndsDigits (text ++ rest) := by
  cases h with
  | none => exact ends
  | point _ => simp [EndsDigits]

theorem IsUnsigned.head (h : IsUnsigned text) : ∃ c tail, text = c :: tail ∧ c.isDigit = true := by
  obtain @⟨whole, fraction, power, some, -, -, -⟩ := h
  cases whole with
  | nil => exact absurd rfl some.nonempty
  | cons c whole => exact ⟨c, _, rfl, some.digits c (by simp)⟩

/-- A numeral begins with a digit or with a sign. -/
theorem IsNumeral.head (h : IsNumeral text) : ∃ c tail, text = c :: tail ∧
    (c = '-' ∨ c.isDigit = true) := by
  cases h with
  | plain h =>
    obtain ⟨c, tail, shape, digit⟩ := h.head
    exact ⟨c, tail, shape, .inr digit⟩
  | minus h => exact ⟨'-', _, rfl, .inl rfl⟩

/-- The sign of a numeral and what follows it. -/
theorem IsNumeral.exists_sign (h : IsNumeral text) : ∃ sign unsigned, text = sign ++ unsigned ∧
    IsUnsigned unsigned ∧ ∀ rest, splitMinus (text ++ rest) = (sign, unsigned ++ rest) := by
  cases h with
  | @plain text h =>
    refine ⟨[], text, rfl, h, ?_⟩
    intro rest
    obtain ⟨c, tail, rfl, digit⟩ := h.head
    rw [List.cons_append, splitMinus]
    rintro tail ⟨rfl, -⟩
    simp at digit
  | @minus text h => exact ⟨['-'], text, rfl, h, fun _ => rfl⟩

/-- A numeral is taken whole, and nothing behind it. -/
theorem scanNumber?_append (h : IsNumeral text) (ends : EndsNumber rest) :
    scanNumber? (text ++ rest) = some (String.ofList text, rest) := by
  obtain ⟨sign, _, shape, ⟨some, zero, isFraction, isPower⟩, signed⟩ := h.exists_sign
  obtain ⟨endsFraction, point⟩ := isPower.ends ends
  have endsWhole := isFraction.ends endsFraction
  rw [scanNumber?, signed rest, shape]
  simp only [List.append_assoc, scanWhole?_append some zero endsWhole,
    scanFraction?_append isFraction endsFraction point, scanPower?_append isPower ends,
    Option.bind_eq_bind, Option.bind_some, Option.pure_def]

/-- A numeral begins no other token. -/
theorem scan_numeral {c : Char} (h : IsNumeral (c :: text)) (ends : EndsNumber rest) :
    isSpace c = false ∧
      scan c (text ++ rest) = some (.number (String.ofList (c :: text)), rest) := by
  have number := scanNumber?_append h ends
  obtain ⟨_, _, ⟨rfl, rfl⟩, first⟩ := h.head
  have noMark : mark? c = none := by
    unfold mark?
    split <;> simp_all
  have noWord : word? c = none := by
    unfold word?
    split <;> simp_all
  have noQuote : c ≠ '"' := by
    rintro rfl
    simp at first
  refine ⟨?_, ?_⟩
  · rw [Bool.eq_false_iff]
    intro space
    simp only [isSpace, Bool.or_eq_true, beq_iff_eq] at space
    rcases space with ((rfl | rfl) | rfl) | rfl <;> simp at first
  · rw [scan, noMark, noWord]
    simp only [if_neg noQuote, ← List.cons_append, number, Option.map_some]

end

/-! ## Texts and their tokens -/

/-- Numbers are numerals, and the rest of a text that is no token does not count as one. -/
def Token.Sound : Token → Prop
  | .number spelling => IsNumeral spelling.toList
  | .broken => False
  | _ => True

/-- How a token is written. Only a string can be written in more than one way. -/
def Token.Form : Token → List Char → Prop
  | .string content, text => StringForm content text
  | token, text => token.Sound ∧ text = token.spell.toList

/-- The tokens are spelled in the text in their order; between them, and at both ends, there may be
    spaces. -/
inductive Spelled : List Token → List Char → Prop
  | nil : Spelled [] []
  | space {c : Char} {tokens : List Token} {text : List Char} : isSpace c = true →
      Spelled tokens text →
      Spelled tokens (c :: text)
  | token {token : Token} {tokens : List Token} {front text : List Char} : token.Form front →
      Spelled tokens text →
      Spelled (token :: tokens) (front ++ text)

/-- What may stand behind a number. -/
def Closes (tokens : List Token) : Prop :=
  ∀ token ∈ tokens.head?, token = .comma ∨ token = .closeArray ∨ token = .closeObject

/-- Tokens that can be told apart in a text. -/
def Proper : List Token → Prop
  | [] => True
  | token :: rest => token.Sound ∧ ((∃ spelling, token = .number spelling) → Closes rest) ∧
      Proper rest

/-- The text of a token is one of its forms. -/
theorem Token.Sound.form {token : Token} (h : token.Sound) : token.Form token.spell.toList := by
  cases token with
  | string content => exact stringForm_spellString content
  | broken => exact h.elim
  | _ => exact ⟨h, rfl⟩

theorem Spelled.endsNumber {tokens : List Token} {text : List Char} (h : Spelled tokens text)
    (closes : Closes tokens) :
    EndsNumber text := by
  cases h with
  | nil => exact endsNumber_nil
  | space space _ =>
    simp only [isSpace, Bool.or_eq_true, beq_iff_eq] at space
    rcases space with ((rfl | rfl) | rfl) | rfl <;>
      exact endsNumber_cons (by decide) (by decide) (by decide)
  | token form _ =>
    rcases closes _ rfl with rfl | rfl | rfl <;> obtain ⟨-, rfl⟩ := form <;>
      exact endsNumber_cons (by decide) (by decide) (by decide)

/-- The first token of a text. -/
theorem scan_form {token : Token} {front text : List Char} (form : token.Form front)
    (ends : (∃ spelling, token = .number spelling) → EndsNumber text) :
    ∃ c tail, front = c :: tail ∧ isSpace c = false ∧
      scan c (tail ++ text) = some (token, text) := by
  cases token with
  | number spelling =>
    obtain ⟨sound, rfl⟩ := form
    obtain ⟨c, tail, shape, -⟩ := IsNumeral.head sound
    have numeral : IsNumeral (c :: tail) := shape ▸ sound
    obtain ⟨noSpace, found⟩ := scan_numeral numeral (ends ⟨spelling, rfl⟩)
    rw [← shape, String.ofList_toList] at found
    exact ⟨c, tail, shape, noSpace, found⟩
  | string content =>
    obtain ⟨tail, rfl, found⟩ := scan_string form
    exact ⟨'"', tail, rfl, by decide, found text⟩
  | broken => exact form.1.elim
  | openArray => exact ⟨'[', [], form.2, rfl, rfl⟩
  | closeArray => exact ⟨']', [], form.2, rfl, rfl⟩
  | openObject => exact ⟨'\x7b', [], form.2, rfl, rfl⟩
  | closeObject => exact ⟨'\x7d', [], form.2, rfl, rfl⟩
  | comma => exact ⟨',', [], form.2, rfl, rfl⟩
  | colon => exact ⟨':', [], form.2, rfl, rfl⟩
  | null => exact ⟨'n', ['u', 'l', 'l'], form.2, rfl, rfl⟩
  | bool value =>
    cases value with
    | true => exact ⟨'t', ['r', 'u', 'e'], form.2, rfl, rfl⟩
    | false => exact ⟨'f', ['a', 'l', 's', 'e'], form.2, rfl, rfl⟩

/-- A text is cut into the tokens that it spells. -/
theorem cut_of_spelled {tokens : List Token} {text : List Char} (h : Spelled tokens text)
    (proper : Proper tokens)
    (done : List Token) : cut done text = tokens.reverse ++ done := by
  induction h generalizing done with
  | nil => simp [cut]
  | space space _ ih => rw [cut, if_pos space, ih proper]
  | @token token tokens front text form rest ih =>
    obtain ⟨-, closes, proper⟩ := proper
    obtain ⟨c, tail, rfl, noSpace, found⟩ := scan_form form fun number =>
      rest.endsNumber (closes number)
    rw [List.cons_append, cut, noSpace, if_neg Bool.false_ne_true]
    split
    · next token' rest first =>
      rw [found, Option.some.injEq, Prod.mk.injEq] at first
      obtain ⟨rfl, rfl⟩ := first
      rw [ih proper, List.reverse_cons, List.append_assoc, List.singleton_append]
    · next first =>
      rw [found] at first
      cases first

/-- The tokens that are spelled in a text are those that are found in it. -/
theorem lex_of_spelled {tokens : List Token} {text : String} (h : Spelled tokens text.toList)
    (proper : Proper tokens) :
    lex text = tokens := by
  rw [lex, cut_of_spelled h proper, List.append_nil, List.reverse_reverse]

end StackScript.Json
