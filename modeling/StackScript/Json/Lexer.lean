import StackScript.Json.Token

/-!
# From characters to tokens

A text is cut into tokens from left to right; spaces between them are dropped. The first place where
no token can be cut becomes the token `broken`, and the rest of the text is not looked at.
-/

namespace StackScript.Json

/-- The characters that may stand between tokens. -/
def isSpace (c : Char) : Bool :=
  c == ' ' || c == '\n' || c == '\t' || c == '\r'

/-- The value of a hexadecimal digit. -/
def hexValue? (c : Char) : Option Nat :=
  if '0' ≤ c ∧ c ≤ '9' then some (c.toNat - '0'.toNat)
  else if 'a' ≤ c ∧ c ≤ 'f' then some (c.toNat - 'a'.toNat + 10)
  else if 'A' ≤ c ∧ c ≤ 'F' then some (c.toNat - 'A'.toNat + 10)
  else none

/-- The value of four hexadecimal digits. -/
def unitValue? (a b c d : Char) : Option Nat := do
  let a ← hexValue? a
  let b ← hexValue? b
  let c ← hexValue? c
  let d ← hexValue? d
  return ((a * 16 + b) * 16 + c) * 16 + d

/-- The character that a letter behind a backslash stands for. -/
def shortEscape? : Char → Option Char
  | '"' => some '"'
  | '\\' => some '\\'
  | '/' => some '/'
  | 'b' => some '\x08'
  | 'f' => some '\x0c'
  | 'n' => some '\n'
  | 'r' => some '\r'
  | 't' => some '\t'
  | _ => none

/-- A string as far as it is read. -/
structure Draft where
  /-- The characters so far, the last one first. -/
  read : List Char := []
  /-- The first half of a pair, when the second half has to follow. -/
  lead : Option Nat := none
  /-- Every half so far was in its place. -/
  paired : Bool := true

/-- Takes a character that is no half of a pair. -/
def Draft.push (d : Draft) (c : Char) : Draft :=
  { read := c :: d.read, lead := none, paired := d.paired && d.lead.isNone }

/-- Takes an escaped unit, which may be half of a pair. -/
def Draft.pushUnit (d : Draft) (unit : Nat) : Draft :=
  if 0xd800 ≤ unit ∧ unit < 0xdc00 then
    { d with lead := some unit, paired := d.paired && d.lead.isNone }
  else if 0xdc00 ≤ unit ∧ unit < 0xe000 then
    match d.lead with
    | some lead =>
      { d with
        read := Char.ofNat (0x10000 + (lead - 0xd800) * 0x400 + (unit - 0xdc00)) :: d.read
        lead := none }
    | none => { d with paired := false }
  else d.push (Char.ofNat unit)

/-- The content of the string if each half had its other half. -/
def Draft.content (d : Draft) : Option String :=
  if d.paired && d.lead.isNone then some (String.ofList d.read.reverse) else none

/-- Reads a string behind its opening quote, and gives what follows the closing one. -/
def scanString (d : Draft) : List Char → Option (Option String × List Char)
  | [] => none
  | c :: rest =>
    if c = '"' then some (d.content, rest)
    else if c = '\\' then
      match rest with
      | 'u' :: h₁ :: h₂ :: h₃ :: h₄ :: rest =>
        match unitValue? h₁ h₂ h₃ h₄ with
        | some unit => scanString (d.pushUnit unit) rest
        | none => none
      | mark :: rest =>
        match shortEscape? mark with
        | some c => scanString (d.push c) rest
        | none => none
      | [] => none
    else if c.toNat < 0x20 then none
    else scanString (d.push c) rest

/-- The digits of a whole part: no zero stands before other digits. -/
def scanWhole? (text : List Char) : Option (List Char × List Char) :=
  match text.takeWhile Char.isDigit with
  | [] => none
  | '0' :: _ :: _ => none
  | digits => some (digits, text.dropWhile Char.isDigit)

/-- A point with digits behind it, if there is a point. -/
def scanFraction? : List Char → Option (List Char × List Char)
  | '.' :: rest =>
    match rest.takeWhile Char.isDigit with
    | [] => none
    | digits => some ('.' :: digits, rest.dropWhile Char.isDigit)
  | text => some ([], text)

/-- The sign of a power of ten, if there is one, and what follows it. -/
def splitPowerSign : List Char → List Char × List Char
  | '+' :: rest => (['+'], rest)
  | '-' :: rest => (['-'], rest)
  | text => ([], text)

/-- A power of ten, if there is one. -/
def scanPower? : List Char → Option (List Char × List Char)
  | [] => some ([], [])
  | mark :: rest =>
    if mark = 'e' ∨ mark = 'E' then
      let (sign, rest) := splitPowerSign rest
      match rest.takeWhile Char.isDigit with
      | [] => none
      | digits => some (mark :: (sign ++ digits), rest.dropWhile Char.isDigit)
    else some ([], mark :: rest)

/-- A minus sign, if there is one, and what follows it. -/
def splitMinus : List Char → List Char × List Char
  | '-' :: rest => (['-'], rest)
  | text => ([], text)

/-- A number's spelling and what follows it. -/
def scanNumber? (text : List Char) : Option (String × List Char) := do
  let (sign, text) := splitMinus text
  let (whole, text) ← scanWhole? text
  let (fraction, text) ← scanFraction? text
  let (power, text) ← scanPower? text
  return (String.ofList (sign ++ whole ++ fraction ++ power), text)

/-- What follows the given word, if the text begins with it. -/
def afterWord? (word text : List Char) : Option (List Char) :=
  if word.isPrefixOf text then some (text.drop word.length) else none

/-- The tokens of one character. -/
def mark? : Char → Option Token
  | '[' => some .openArray
  | ']' => some .closeArray
  | '\x7b' => some .openObject
  | '\x7d' => some .closeObject
  | ',' => some .comma
  | ':' => some .colon
  | _ => none

/-- The words that are tokens, without their first letter. -/
def word? : Char → Option (List Char × Token)
  | 'n' => some ("ull".toList, .null)
  | 't' => some ("rue".toList, .bool true)
  | 'f' => some ("alse".toList, .bool false)
  | _ => none

/-- The first token of a text that begins with the given character, which is no space, and what
    follows the token. -/
def scan (c : Char) (rest : List Char) : Option (Token × List Char) :=
  match mark? c with
  | some token => some (token, rest)
  | none =>
    match word? c with
    | some (word, token) => (afterWord? word rest).map fun rest => (token, rest)
    | none =>
      if c = '"' then (scanString {} rest).map fun (content, rest) => (.string content, rest)
      else (scanNumber? (c :: rest)).map fun (spelling, rest) => (.number spelling, rest)

/-! ## What is left gets shorter -/

theorem length_dropWhile_le (p : Char → Bool) (text : List Char) :
    (text.dropWhile p).length ≤ text.length :=
  (List.dropWhile_sublist p).length_le

theorem scanString_shorter {d : Draft} {text rest : List Char} {content : Option String}
    (h : scanString d text = some (content, rest)) : rest.length < text.length := by
  fun_induction scanString d text with
  | case1 => simp at h
  | case2 d rest' => simp_all
  | case3 d h₁ h₂ h₃ h₄ rest' unit hu _ ih => have := ih h; simp; omega
  | case4 => simp at h
  | case5 d mark rest' _ c hc _ ih => have := ih h; simp; omega
  | case6 => simp at h
  | case7 => simp at h
  | case8 => simp at h
  | case9 d c rest' _ _ _ ih => have := ih h; simp; omega

theorem scanWhole?_shorter {text whole rest : List Char}
    (h : scanWhole? text = some (whole, rest)) : rest.length < text.length := by
  unfold scanWhole? at h
  split at h
  · simp at h
  · simp at h
  · next digits hne _ =>
    simp only [Option.some.injEq, Prod.mk.injEq] at h
    obtain ⟨rfl, rfl⟩ := h
    have hsum :=
      congrArg List.length (List.takeWhile_append_dropWhile (p := Char.isDigit) (l := text))
    have hpos : 0 < (text.takeWhile Char.isDigit).length :=
      List.length_pos_iff.mpr fun hnil => hne hnil
    simp only [List.length_append] at hsum
    omega

theorem scanFraction?_le {text fraction rest : List Char}
    (h : scanFraction? text = some (fraction, rest)) : rest.length ≤ text.length := by
  unfold scanFraction? at h
  split at h
  · next tail =>
    split at h
    · simp at h
    · simp only [Option.some.injEq, Prod.mk.injEq] at h
      have := length_dropWhile_le Char.isDigit tail
      simp [← h.2]
      omega
  · simp_all

theorem splitPowerSign_le (text : List Char) : (splitPowerSign text).2.length ≤ text.length := by
  unfold splitPowerSign
  split <;> simp

theorem scanPower?_le {text power rest : List Char}
    (h : scanPower? text = some (power, rest)) : rest.length ≤ text.length := by
  unfold scanPower? at h
  split at h
  · simp_all
  · next mark tail =>
    split at h
    · have hs := splitPowerSign_le tail
      simp only at h
      split at h
      · simp at h
      · simp only [Option.some.injEq, Prod.mk.injEq] at h
        have := length_dropWhile_le Char.isDigit (splitPowerSign tail).2
        simp [← h.2]
        omega
    · simp_all

theorem splitMinus_le (text : List Char) : (splitMinus text).2.length ≤ text.length := by
  unfold splitMinus
  split <;> simp

theorem scanNumber?_shorter {text rest : List Char} {spelling : String}
    (h : scanNumber? text = some (spelling, rest)) : rest.length < text.length := by
  simp only [scanNumber?, Option.bind_eq_bind, Option.bind_eq_some_iff, Prod.exists,
    Option.some.injEq, Prod.mk.injEq, Option.pure_def] at h
  obtain ⟨whole, t₁, h₁, fraction, t₂, h₂, power, t₃, h₃, -, rfl⟩ := h
  have := splitMinus_le text
  have := scanWhole?_shorter h₁
  have := scanFraction?_le h₂
  have := scanPower?_le h₃
  omega

theorem afterWord?_le {word text rest : List Char} (h : afterWord? word text = some rest) :
    rest.length ≤ text.length := by
  unfold afterWord? at h
  split at h
  · simp only [Option.some.injEq] at h
    simp [← h]
  · simp at h

theorem scan_shorter {c : Char} {text rest : List Char} {token : Token}
    (h : scan c text = some (token, rest)) : rest.length < (c :: text).length := by
  unfold scan at h
  split at h
  · simp only [Option.some.injEq, Prod.mk.injEq] at h
    simp [← h.2]
  · split at h
    · simp only [Option.map_eq_some_iff, Prod.mk.injEq] at h
      obtain ⟨tail, ht, -, rfl⟩ := h
      have := afterWord?_le ht
      simp only [List.length_cons]
      omega
    · split at h
      · simp only [Option.map_eq_some_iff, Prod.exists, Prod.mk.injEq] at h
        obtain ⟨content, tail, ht, -, rfl⟩ := h
        have := scanString_shorter ht
        simp only [List.length_cons]
        omega
      · simp only [Option.map_eq_some_iff, Prod.exists, Prod.mk.injEq] at h
        obtain ⟨spelling, tail, ht, -, rfl⟩ := h
        exact scanNumber?_shorter ht

/-- The tokens of a text, the last one first, behind those already cut. -/
def cut (done : List Token) (text : List Char) : List Token :=
  match text with
  | [] => done
  | c :: rest =>
    if isSpace c then cut done rest
    else
      match _h : scan c rest with
      | some (token, rest) => cut (token :: done) rest
      | none => .broken :: done
termination_by text.length
decreasing_by
  · simp
  · exact scan_shorter _h

/-- The tokens of a text. -/
def lex (text : String) : List Token :=
  (cut [] text.toList).reverse

end StackScript.Json
