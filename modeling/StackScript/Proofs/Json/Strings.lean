import StackScript.Json.Lexer

/-!
# Strings in a text

A string can be written in many ways: a character as it is, behind a backslash, or as one unit or a
pair of units of sixteen bits. Each way is read as the same string, and the way in which strings are
printed is one of them.
-/

namespace StackScript.Json

/-! ## Pieces -/

/-- What a piece of a string stands for: a character, or a unit of which two may make a
    character. -/
inductive Piece where
  | char (c : Char)
  | unit (n : Nat)

/-- How a piece is written. -/
inductive Piece.Form : Piece → List Char → Prop
  | plain {c : Char} : c ≠ '"' → c ≠ '\\' → 0x20 ≤ c.toNat → Form (.char c) [c]
  | short {mark c : Char} : shortEscape? mark = some c → Form (.char c) ['\\', mark]
  | unit {h₁ h₂ h₃ h₄ : Char} {n : Nat} : unitValue? h₁ h₂ h₃ h₄ = some n →
      Form (.unit n) ['\\', 'u', h₁, h₂, h₃, h₄]

/-- Pieces that are written one after the other. -/
inductive Pieces : List Piece → List Char → Prop
  | nil : Pieces [] []
  | cons {piece : Piece} {pieces : List Piece} {front text : List Char} : piece.Form front →
      Pieces pieces text →
      Pieces (piece :: pieces) (front ++ text)

/-- The first half of a pair. -/
abbrev IsLead (n : Nat) : Prop := 0xd800 ≤ n ∧ n < 0xdc00

/-- The second half of a pair. -/
abbrev IsTrail (n : Nat) : Prop := 0xdc00 ≤ n ∧ n < 0xe000

/-- The characters that the pieces make, if no half of a pair stands alone. -/
def decode : List Piece → Option (List Char)
  | [] => some []
  | .char c :: rest => (decode rest).map (c :: ·)
  | .unit n :: rest =>
    if IsLead n then
      match rest with
      | .unit trail :: rest =>
        if IsTrail trail then
          (decode rest).map (Char.ofNat (0x10000 + (n - 0xd800) * 0x400 + (trail - 0xdc00)) :: ·)
        else none
      | _ => none
    else if IsTrail n then none
    else (decode rest).map (Char.ofNat n :: ·)

/-- A string with the given content, between its quotes. It has no content if half of a pair stands
    alone in it. -/
inductive StringForm : Option String → List Char → Prop
  | mk {pieces : List Piece} {text : List Char} : Pieces pieces text →
      StringForm ((decode pieces).map String.ofList) ('"' :: (text ++ ['"']))

/-! ## Reading pieces -/

/-- What has been read of a string, with one more piece. -/
def Draft.add (d : Draft) : Piece → Draft
  | .char c => d.push c
  | .unit n => d.pushUnit n

/-- A quote ends the string. -/
theorem scanString_quote (d : Draft) (rest : List Char) :
    scanString d ('"' :: rest) = some (d.content, rest) := by
  rw [scanString.eq_def]
  rfl

/-- Each form of a piece is read as the piece. -/
theorem scanString_form {piece : Piece} {front : List Char} (form : piece.Form front) (d : Draft)
    (rest : List Char) :
    scanString d (front ++ rest) = scanString (d.add piece) rest := by
  cases form with
  | plain quote backslash control =>
    rw [List.singleton_append, scanString.eq_def]
    simp only [if_neg quote, if_neg backslash, if_neg (Nat.not_lt.mpr control)]
    rfl
  | @short mark c escaped =>
    have other : mark ≠ 'u' := by
      rintro rfl
      cases escaped
    rw [List.cons_append, List.singleton_append, scanString.eq_def]
    simp [other, escaped]
    rfl
  | unit value =>
    simp [scanString, value]
    rfl

/-- The pieces of a string are read one by one. -/
theorem scanString_pieces {pieces : List Piece} {text : List Char}
    (written : Pieces pieces text) (d : Draft)
    (rest : List Char) : scanString d (text ++ '"' :: rest) =
      some ((pieces.foldl Draft.add d).content, rest) := by
  induction written generalizing d with
  | nil => exact scanString_quote d rest
  | cons form _ ih => rw [List.append_assoc, scanString_form form, ih, List.foldl_cons]

/-! ## Pairs -/

section

variable {n trail : Nat} {rest : List Piece}

/-- The first half of a pair has no meaning alone. -/
theorem decode_alone (isLead : IsLead n)
    (alone : ∀ trail tail, rest = .unit trail :: tail → ¬ IsTrail trail) :
    decode (.unit n :: rest) = none := by
  rw [decode.eq_def]
  simp only [if_pos isLead]
  split
  · next trail tail => rw [if_neg (alone trail tail rfl)]
  · rfl

/-- Both halves of a pair are one character. -/
theorem decode_pair (isLead : IsLead n) (isTrail : IsTrail trail) :
    decode (.unit n :: .unit trail :: rest) =
      (decode rest).map (Char.ofNat (0x10000 + (n - 0xd800) * 0x400 + (trail - 0xdc00)) :: ·) := by
  rw [decode, if_pos isLead]
  exact if_pos isTrail

theorem not_isLead (isTrail : IsTrail n) : ¬ IsLead n := by
  omega

/-- The second half of a pair has no meaning alone. -/
theorem decode_trail (isTrail : IsTrail n) : decode (.unit n :: rest) = none := by
  rw [decode.eq_def]
  simp only [if_neg (not_isLead isTrail), if_pos isTrail]

theorem decode_unit (noLead : ¬ IsLead n) (noTrail : ¬ IsTrail n) :
    decode (.unit n :: rest) = (decode rest).map (Char.ofNat n :: ·) := by
  rw [decode.eq_def]
  simp only [if_neg noLead, if_neg noTrail]

end

/-- What is read when more pieces come behind those of a draft. A first half with which the draft
    waits is the first of them. -/
def Draft.contentWith (d : Draft) (pieces : List Piece) : Option String :=
  if d.paired then
    (decode ((d.lead.map Piece.unit).toList ++ pieces)).map fun cs =>
      String.ofList (d.read.reverse ++ cs)
  else none

theorem Draft.contentWith_push (d : Draft) (waits : ∀ n ∈ d.lead, IsLead n) (c : Char)
    (pieces : List Piece) :
    (d.push c).contentWith pieces = d.contentWith (.char c :: pieces) := by
  obtain ⟨read, lead, paired⟩ := d
  cases lead with
  | none => cases paired <;> simp [contentWith, push, decode, Function.comp_def]
  | some n =>
    have alone : decode (.unit n :: .char c :: pieces) = none := decode_alone (waits n rfl) nofun
    simp [contentWith, push, alone]

theorem Draft.contentWith_pushUnit (d : Draft) (waits : ∀ n ∈ d.lead, IsLead n) (n : Nat)
    (pieces : List Piece) :
    (d.pushUnit n).contentWith pieces = d.contentWith (.unit n :: pieces) := by
  by_cases isLead : IsLead n
  · -- The draft waits with this half from now on; another one before it stays alone.
    obtain ⟨read, lead, paired⟩ := d
    rw [pushUnit, if_pos isLead]
    cases lead with
    | none => simp [contentWith]
    | some m =>
      have alone : decode (.unit m :: .unit n :: pieces) = none := by
        refine decode_alone (waits m rfl) ?_
        rintro trail tail ⟨⟩ isTrail
        exact not_isLead isTrail isLead
      simp [contentWith, alone]
  · by_cases isTrail : IsTrail n
    · obtain ⟨read, lead, paired⟩ := d
      rw [pushUnit, if_neg isLead, if_pos isTrail]
      cases lead with
      | none => simp [contentWith, decode_trail isTrail]
      | some m =>
        have pair : decode (.unit m :: .unit n :: pieces) = _ := decode_pair (waits m rfl) isTrail
        cases paired <;> simp [contentWith, pair, Function.comp_def]
    · have single : d.contentWith (.unit n :: pieces) =
          d.contentWith (.char (Char.ofNat n) :: pieces) := by
        obtain ⟨read, lead, paired⟩ := d
        cases lead with
        | none => simp [contentWith, decode_unit isLead isTrail, decode]
        | some m =>
          have alone : decode (.unit m :: .unit n :: pieces) = none := by
            refine decode_alone (waits m rfl) ?_
            rintro trail tail ⟨⟩
            exact isTrail
          have alone' : decode (.unit m :: .char (Char.ofNat n) :: pieces) = none :=
            decode_alone (waits m rfl) nofun
          simp [contentWith, alone, alone']
      rw [pushUnit, if_neg isLead, if_neg isTrail, single, contentWith_push d waits]

/-- A draft waits only with first halves. -/
theorem Draft.waits_add {d : Draft} (waits : ∀ n ∈ d.lead, IsLead n) (piece : Piece) :
    ∀ n ∈ (d.add piece).lead, IsLead n := by
  cases piece with
  | char c => nofun
  | unit n =>
    rw [add, pushUnit]
    split
    · next isLead =>
      rintro m ⟨⟩
      exact isLead
    · split
      · split
        · nofun
        · exact waits
      · nofun

/-- What is read piece by piece is what the pieces mean together. -/
theorem Draft.content_foldl_add (pieces : List Piece) (d : Draft) (waits : ∀ n ∈ d.lead, IsLead n) :
    (pieces.foldl Draft.add d).content = d.contentWith pieces := by
  induction pieces generalizing d with
  | nil =>
    obtain ⟨read, lead, paired⟩ := d
    cases lead with
    | none => cases paired <;> simp [contentWith, content, decode]
    | some n =>
      have alone : decode [.unit n] = none := decode_alone (waits n rfl) nofun
      simp [contentWith, content, alone]
  | cons piece pieces ih =>
    rw [List.foldl_cons, ih _ (waits_add waits piece)]
    cases piece with
    | char c => exact contentWith_push d waits c pieces
    | unit n => exact contentWith_pushUnit d waits n pieces

/-- A string is read as its content, in whatever way it is written. -/
theorem scan_string {content : Option String} {text : List Char} (form : StringForm content text) :
    ∃ tail, text = '"' :: tail ∧
      ∀ rest, scan '"' (tail ++ rest) = some (.string content, rest) := by
  obtain @⟨pieces, text, written⟩ := form
  refine ⟨text ++ ['"'], rfl, ?_⟩
  intro rest
  have read := scanString_pieces written {} rest
  rw [Draft.content_foldl_add pieces {} nofun] at read
  simp [scan, mark?, word?, read, Draft.contentWith]

/-! ## How strings are printed -/

theorem toList_foldl_append {α : Type} (spell : α → String) (items : List α) (shown : String) :
    (items.foldl (fun shown a => shown ++ spell a) shown).toList =
      shown.toList ++ items.flatMap fun a => (spell a).toList := by
  induction items generalizing shown with
  | nil => simp
  | cons a items ih => simp [ih]

theorem toList_hexUnit {n : Nat} (h : n < 32) :
    (hexUnit n).toList = ['0', '0', if n < 16 then '0' else '1', Nat.digitChar (n % 16)] := by
  rw [hexUnit, String.toList_ofList]
  revert n
  decide

theorem unitValue?_hexUnit {n : Nat} (h : n < 32) :
    unitValue? '0' '0' (if n < 16 then '0' else '1') (Nat.digitChar (n % 16)) = some n := by
  revert n
  decide

/-- An escaped character is a piece that makes the character. -/
theorem exists_form_escapeChar (c : Char) :
    ∃ piece : Piece, piece.Form (escapeChar c).toList ∧
      ∀ pieces, decode (piece :: pieces) = (decode pieces).map (c :: ·) := by
  unfold escapeChar
  split
  case h_8 quote backslash _ _ _ _ _ =>
    split
    · next control =>
      refine ⟨.unit c.toNat, ?_, ?_⟩
      · rw [String.toList_append, toList_hexUnit control]
        exact .unit (unitValue?_hexUnit control)
      · intro pieces
        rw [decode_unit (by omega) (by omega), Char.ofNat_toNat]
    · next control =>
      refine ⟨.char c, ?_, fun pieces => rfl⟩
      rw [Char.toString, String.toList_singleton]
      exact .plain quote backslash (Nat.not_lt.mp control)
  all_goals exact ⟨.char _, .short rfl, fun pieces => rfl⟩

/-- The printed form of a string. -/
theorem stringForm_spellString (content : Option String) :
    StringForm content (spellString content).toList := by
  cases content with
  | none =>
    have half : unitValue? 'd' '8' '0' '0' = some 0xd800 := rfl
    exact .mk (.cons (.unit half) .nil)
  | some content =>
    have body (cs : List Char) :
        ∃ pieces, Pieces pieces (cs.flatMap fun c => (escapeChar c).toList) ∧
        decode pieces = some cs := by
      induction cs with
      | nil => exact ⟨[], .nil, rfl⟩
      | cons c cs ih =>
        obtain ⟨pieces, written, whole⟩ := ih
        obtain ⟨piece, form, makes⟩ := exists_form_escapeChar c
        exact ⟨piece :: pieces, .cons form written, by rw [makes, whole]; rfl⟩
    obtain ⟨pieces, written, whole⟩ := body content.toList
    have string := StringForm.mk written
    rw [whole, Option.map_some, String.ofList_toList] at string
    rw [spellString, String.toList_append, toList_foldl_append]
    exact string

end StackScript.Json
