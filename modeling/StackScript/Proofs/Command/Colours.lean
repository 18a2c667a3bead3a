import StackScript.Command.Disasm
import StackScript.Proofs.Json.Strings
import StackScript.Proofs.Listing.Lines

/-!
# Listings in colours

The command takes a listing apart again: it trims each line, cuts it at blanks, and aligns and
colours the pieces. What stands behind the operation neither begins nor ends with a blank, so
trimming takes nothing of it, and the first gap of a line stands behind its offset. A line that is
one line is shown as it is, but for the codes that switch colours.
-/

namespace StackScript

/-! ## Text between blanks -/

namespace Text

/-- The first character is there, and is not blank. -/
def Begins (text : List Char) : Prop :=
  text.head?.any (!isBlank ·) = true

instance : DecidablePred Begins :=
  fun text => inferInstanceAs (Decidable (text.head?.any (!isBlank ·) = true))

/-- Neither the first nor the last character is blank. -/
structure Firm (text : List Char) : Prop where
  begins : Begins text
  ends : Begins text.reverse

section Trim

variable {text front back : List Char}

/-- The first character is not a blank. -/
theorem begins_iff : Begins text ↔ ∃ c rest, text = c :: rest ∧ isBlank c = false := by
  cases text <;> simp [Begins]

theorem Begins.append (h : Begins front) (back : List Char) : Begins (front ++ back) := by
  obtain ⟨c, rest, rfl, solid⟩ := begins_iff.mp h
  exact begins_iff.mpr ⟨c, rest ++ back, rfl, solid⟩

theorem Begins.append_reverse (h : Begins back.reverse) (front : List Char) :
    Begins (front ++ back).reverse := by
  rw [List.reverse_append]
  exact h.append _

/-- Two texts without blanks at their ends. -/
theorem Firm.append (h : Firm front) (h' : Firm back) : Firm (front ++ back) :=
  ⟨h.begins.append back, h'.ends.append_reverse front⟩

/-- A text without any blank. -/
theorem firm_of_solid (nonempty : text ≠ []) (solid : ∀ c ∈ text, isBlank c = false) :
    Firm text := by
  have begins (cs : List Char) (some : cs ≠ []) (each : ∀ c ∈ cs, isBlank c = false) :
      Begins cs := by
    cases cs with
    | nil => exact absurd rfl some
    | cons c rest => exact begins_iff.mpr ⟨c, rest, rfl, each c List.mem_cons_self⟩
  refine ⟨begins text nonempty solid, begins _ ?_ ?_⟩
  · simpa using nonempty
  · simpa using solid

/-- Nothing is cut off where there is no blank. -/
theorem trimLeft_of_begins (h : Begins text) : trimLeft text = text := by
  obtain ⟨c, rest, rfl, solid⟩ := begins_iff.mp h
  rw [trimLeft, List.dropWhile_cons_of_neg (by simp [solid])]

/-- The padding on the left is cut off. -/
theorem trimLeft_spaces (n : Nat) (text : List Char) :
    trimLeft (List.replicate n ' ' ++ text) = trimLeft text := by
  apply List.dropWhile_append_of_pos
  intro c mem
  rw [List.eq_of_mem_replicate mem]
  decide

/-- The right end is the left end of the reverse. -/
theorem trimRight_eq (text : List Char) : trimRight text = (trimLeft text.reverse).reverse := rfl

theorem trimRight_of_ends (h : Begins text.reverse) : trimRight text = text := by
  rw [trimRight_eq, trimLeft_of_begins h, List.reverse_reverse]

/-- The padding on the right is cut off. -/
theorem trimRight_spaces (text : List Char) (n : Nat) :
    trimRight (text ++ List.replicate n ' ') = trimRight text := by
  rw [trimRight_eq, List.reverse_append, List.reverse_replicate, trimLeft_spaces, trimRight_eq]

end Trim

/-! ## Cutting -/

/-- A text is cut where the first character of the mark occurs for the first time, if the mark
    stands there. -/
theorem cutAt?_append {c : Char} {mark before : List Char} (first : c ∉ before)
    (after : List Char) :
    cutAt? (c :: mark) (before ++ (c :: mark ++ after)) = some (before, after) := by
  induction before with
  | nil => simp [cutAt?]
  | cons b before ih =>
    rw [List.mem_cons, not_or] at first
    have other : (c :: mark).isPrefixOf (b :: (before ++ (c :: mark ++ after))) = false := by
      simp [List.isPrefixOf, first.1]
    rw [List.cons_append, cutAt?, other, ih first.2]
    rfl

/-- A text without the mark is not cut. -/
theorem cutAt?_eq_none {c : Char} {text : List Char} (none : c ∉ text) :
    cutAt? [c] text = .none := by
  induction text with
  | nil => rfl
  | cons b text ih =>
    rw [List.mem_cons, not_or] at none
    have other : [c].isPrefixOf (b :: text) = false := by simp [List.isPrefixOf, none.1]
    rw [cutAt?, other, ih none.2]
    rfl

/-! ## Lines -/

theorem pieces_cons (mark c : Char) (text : List Char) :
    pieces mark (c :: text) =
      if c = mark then ([], (pieces mark text).1 :: (pieces mark text).2)
      else (c :: (pieces mark text).1, (pieces mark text).2) := rfl

/-- What stands before the first mark is the first piece. -/
theorem pieces_append {mark : Char} {front : List Char} (none : mark ∉ front) (text : List Char) :
    pieces mark (front ++ text) = (front ++ (pieces mark text).1, (pieces mark text).2) := by
  induction front with
  | nil => rfl
  | cons c front ih =>
    rw [List.mem_cons, not_or] at none
    rw [List.cons_append, pieces_cons, if_neg (Ne.symm none.1), ih none.2, List.cons_append]

/-- The first line of a text. -/
theorem lines_cons {line : List Char} (unbroken : '\n' ∉ line) (text : List Char) :
    lines (line ++ '\n' :: text) = dropReturn line :: lines text := by
  have cut : pieces '\n' (line ++ '\n' :: text) =
      (line, (pieces '\n' text).1 :: (pieces '\n' text).2) := by
    rw [pieces_append unbroken, pieces_cons, if_pos rfl, List.append_nil]
  rw [lines, cut]
  rfl

/-- A line that does not end in a blank has no return to drop. -/
theorem dropReturn_of_ends {line : List Char} (h : Begins line.reverse) :
    dropReturn line = line := by
  obtain ⟨c, rest, eq, solid⟩ := begins_iff.mp h
  have last : line.getLast? = some c := by rw [List.getLast?_eq_head?_reverse, eq, List.head?_cons]
  rw [dropReturn, last, if_neg]
  rintro ⟨⟩
  exact absurd solid (by decide)

/-- The lines up to a line feed, and those behind it. -/
theorem lines_append (front back : List Char) :
    lines (front ++ '\n' :: back) = lines (front ++ ['\n']) ++ lines back := by
  induction size : front.length using Nat.strongRecOn generalizing front with
  | ind n ih =>
    by_cases broken : '\n' ∈ front
    · obtain ⟨line, rest, rfl, unbroken⟩ := List.eq_append_cons_of_mem broken
      have shorter : rest.length < n := by
        rw [← size, List.length_append, List.length_cons]
        omega
      rw [List.append_assoc, List.append_assoc, List.cons_append, List.cons_append,
        lines_cons unbroken, lines_cons unbroken, ih _ shorter rest rfl, List.cons_append]
    · rw [lines_cons broken, lines_cons broken]
      rfl

theorem lines_flatMap (front : List (List Char)) (text : List Char) :
    lines (front.flatMap (· ++ ['\n']) ++ text) =
      lines (front.flatMap (· ++ ['\n'])) ++ lines text := by
  induction front with
  | nil => rfl
  | cons line front ih =>
    simp only [List.flatMap_cons, List.append_assoc, List.cons_append, List.nil_append]
    rw [lines_append line, lines_append line (front.flatMap _), ih, List.append_assoc]

/-! ## Characters that are not blank -/

theorem isBlank_of_isDigit {c : Char} (h : c.isDigit = true) : isBlank c = false := by
  have digit : 48 ≤ c.toNat ∧ c.toNat ≤ 57 := by
    simpa [Char.isDigit, UInt32.le_iff_toNat_le] using h
  simp only [isBlank, Bool.or_eq_false_iff, Bool.and_eq_false_iff, beq_eq_false_iff_ne,
    decide_eq_false_iff_not]
  omega

/-- A number is written in digits. -/
theorem isDigit_toString (n : Nat) : ∀ c ∈ (toString n).toList, c.isDigit = true := by
  intro c mem
  rw [Nat.toString_eq_ofList_toDigits, String.toList_ofList] at mem
  exact Nat.isDigit_of_mem_toDigits (by decide) (by decide) mem

theorem solid_toString (n : Nat) : ∀ c ∈ (toString n).toList, isBlank c = false :=
  fun c mem => isBlank_of_isDigit (isDigit_toString n c mem)

/-- So it has no blanks. -/
theorem firm_toString (n : Nat) : Firm (toString n).toList :=
  firm_of_solid (by simp) (solid_toString n)

/-- A quoted text begins and ends with its quotes. -/
theorem firm_quote (text : String) : Firm (quote text).toList := by
  rw [quote, String.toList_append, Json.toList_foldl_append]
  exact ⟨.append (.append (by decide) _) _, Begins.append_reverse (by decide) _⟩

/-! ## Codes -/

/-- What stands behind a code that switches a colour or a weight, if the text begins with one. -/
def afterCode? : List Char → Option (List Char)
  | '\x1b' :: '[' :: rest =>
    match rest.dropWhile Char.isDigit with
    | 'm' :: behind => some behind
    | _ => none
  | _ => none

/-- A code takes up characters. -/
theorem length_of_afterCode? {text behind : List Char} (h : afterCode? text = some behind) :
    behind.length < text.length := by
  unfold afterCode? at h
  split at h
  · next rest =>
    split at h
    · next cut =>
      cases h
      have suffix : rest.dropWhile Char.isDigit <:+ rest := List.dropWhile_suffix _
      have shorter := suffix.length_le
      rw [cut] at shorter
      simp only [List.length_cons] at shorter ⊢
      omega
    · cases h
  · cases h

/-- The text as it is seen: without the codes. -/
def withoutCodes : List Char → List Char
  | [] => []
  | c :: rest =>
    match _ : afterCode? (c :: rest) with
    | some behind => withoutCodes behind
    | none => c :: withoutCodes rest
termination_by text => text.length
decreasing_by
  · exact length_of_afterCode? ‹_›
  · exact Nat.lt_succ_self rest.length

/-- A code is left out. -/
theorem withoutCodes_of_code {text behind : List Char} (code : afterCode? text = some behind) :
    withoutCodes text = withoutCodes behind := by
  cases text with
  | nil => cases code
  | cons c rest =>
    rw [withoutCodes]
    split
    · next found =>
      cases found.symm.trans code
      rfl
    · next found => cases found.symm.trans code

/-- Any other character is kept. -/
theorem withoutCodes_cons {c : Char} {rest : List Char} (none : afterCode? (c :: rest) = none) :
    withoutCodes (c :: rest) = c :: withoutCodes rest := by
  rw [withoutCodes]
  split
  · next found => cases found.symm.trans none
  · rfl

/-- What switches a colour is a code. -/
theorem afterCode?_code (n : Nat) (text : List Char) :
    afterCode? (("\x1b[" ++ toString n ++ "m").toList ++ text) = some text := by
  have spelled : ("\x1b[" ++ toString n ++ "m").toList ++ text =
      '\x1b' :: '[' :: ((toString n).toList ++ 'm' :: text) := by
    simp
  rw [spelled]
  simp only [afterCode?, List.dropWhile_append_of_pos (isDigit_toString n)]
  rfl

/-- Plain text is kept. -/
theorem withoutCodes_append {front : List Char} (plain : '\x1b' ∉ front) (text : List Char) :
    withoutCodes (front ++ text) = front ++ withoutCodes text := by
  induction front with
  | nil => rfl
  | cons c front ih =>
    rw [List.mem_cons, not_or] at plain
    have none : afterCode? (c :: (front ++ text)) = none := by
      unfold afterCode?
      split
      · next same => exact absurd (List.cons.inj same).1.symm plain.1
      · rfl
    rw [List.cons_append, withoutCodes_cons none, ih plain.2, List.cons_append]

theorem withoutCodes_of_plain {text : List Char} (plain : '\x1b' ∉ text) :
    withoutCodes text = text := by
  simpa [withoutCodes] using withoutCodes_append plain []

end Text

open Text

/-- The digits are solid, and so are the zeros and the point among them. -/
theorem Number.Style.firm_positional {digits : String} (some : digits ≠ "")
    (solid : ∀ c ∈ digits.toList, isBlank c = false) (whole : Int) :
    Firm (Style.listing.positional digits whole).toList := by
  have zero (n : Nat) : ∀ c ∈ (zeros n).toList, isBlank c = false := by
    intro c mem
    rw [zeros, String.toList_ofList] at mem
    rw [List.eq_of_mem_replicate mem]
    decide
  have start (n : Nat) (c : Char) (mem : c ∈ digits.toList.take n) :=
    solid c (List.mem_of_mem_take mem)
  have rest (n : Nat) (c : Char) (mem : c ∈ digits.toList.drop n) :=
    solid c (List.mem_of_mem_drop mem)
  have point : isBlank '.' = false ∧ isBlank '0' = false := by decide
  have plain : Style.listing.fraction = false := rfl
  simp only [positional, plain, Bool.false_eq_true, if_false, String.append_empty]
  apply firm_of_solid
  · split_ifs <;> simp [some]
  · split_ifs
    · simpa [or_imp, forall_and] using ⟨solid, zero _⟩
    · simpa [or_imp, forall_and] using ⟨start _, point.1, rest _⟩
    · simpa [or_imp, forall_and] using ⟨point.2, point.1, zero _, solid⟩

/-- A number in a listing has no blanks at its ends. -/
theorem Number.Style.firm_text (x : Float) : Firm (Style.listing.text x).toList := by
  have digits (d : Decimal) : Firm (Style.listing.decimal d).toList :=
    firm_positional (by simp) (solid_toString _) _
  unfold Style.text
  split
  · exact ⟨by decide, by decide⟩
  · split
    · exact ⟨by decide, by decide⟩
    · exact ⟨by decide, by decide⟩
  · rw [String.toList_append]
    split
    · exact .append ⟨by decide, by decide⟩ (digits _)
    · exact digits _

namespace Listing

/-- What a line shows behind its operation. -/
def operands (names : Option NamePool) (i : Instruction) : String :=
  (i.operand.map (operand names)).getD "" ++
    (i.extra.map fun extra => ", " ++ operand names extra).getD ""

/-- The columns of a line. -/
theorem line_eq (names : Option NamePool) (offset : Nat) (i : Instruction) :
    line names offset i = alignRight offsetWidth (toString offset) ++ "  " ++
      alignLeft mnemonicWidth i.op.mnemonic ++ operands names i := by
  rw [line, operands, String.append_assoc]

theorem firm_operand (names : Option NamePool) (o : Operand) : Firm (operand names o).toList := by
  have between (front middle back : String) (begins : Begins front.toList)
      (ends : Begins back.toList.reverse) :
      Firm (front ++ middle ++ back).toList := by
    rw [String.toList_append, String.toList_append]
    exact ⟨(begins.append _).append _, ends.append_reverse _⟩
  cases o with
  | count n => exact firm_toString n
  | flag create =>
    rw [operand]
    cases create <;> exact ⟨by decide, by decide⟩
  | number value => exact Number.Style.firm_text value
  | name index =>
    rw [operand, name]
    split
    · exact firm_quote _
    · rw [String.toList_append]
      exact .append ⟨by decide, by decide⟩ (firm_toString index)
  | text content => exact firm_quote content
  | statement tree => exact between _ _ _ (by decide) (by decide)
  | function tree =>
    rw [operand]
    split
    · exact between _ _ _ (by decide) (by decide)
    · exact ⟨by decide, by decide⟩
  | jump target =>
    rw [operand, String.toList_append]
    exact ⟨.append (by decide) _, (firm_toString target).ends.append_reverse _⟩
  | pending =>
    rw [operand]
    exact ⟨by decide, by decide⟩
  | misuse kind =>
    rw [operand]
    cases kind <;> exact ⟨by decide, by decide⟩

theorem operands_cases (names : Option NamePool) (i : Instruction) :
    operands names i = "" ∨ Firm (operands names i).toList := by
  have second (o : Operand) : Firm (", " ++ operand names o).toList := by
    rw [String.toList_append]
    exact ⟨.append (by decide) _, (firm_operand names o).ends.append_reverse _⟩
  unfold operands
  cases i.operand with
  | none =>
    cases i.extra with
    | none => exact .inl rfl
    | some extra => exact .inr (by simpa using second extra)
  | some o =>
    right
    cases i.extra with
    | none => simpa using firm_operand names o
    | some extra =>
      have both := (firm_operand names o).append (second extra)
      simpa using both

end Listing

/-- The name of an operation is one word, and is shorter than the place that it has in a line. -/
theorem Op.mnemonic_word (op : Op) :
    ' ' ∉ op.mnemonic.toList ∧ '\x1b' ∉ op.mnemonic.toList ∧ Begins op.mnemonic.toList.reverse ∧
      op.mnemonic.length < Listing.mnemonicWidth := by
  cases op <;> decide

namespace Command

/-! ## Lines in colours -/

/-- The line of an instruction, with its offset and its operation in colours. -/
def shownLine (names : Option NamePool) (offset : Nat) (i : Instruction) : String :=
  dimmed (alignRight Listing.offsetWidth (toString offset)) ++ "  " ++
    cyan (alignLeft Listing.mnemonicWidth i.op.mnemonic) ++ Listing.operands names i

/-- Where there are operands, the first blank belongs to the padding; else all of the padding is
    trimmed. -/
theorem cut_operands (names : Option NamePool) (i : Instruction) (pad : Nat) :
    let rest := trimRight
      (i.op.mnemonic.toList ++ (List.replicate (pad + 1) ' ' ++ (Listing.operands names i).toList))
    ∃ behind, (cutAt? [' '] rest).getD (rest, []) = (i.op.mnemonic.toList, behind) ∧
      trimLeft behind = (Listing.operands names i).toList := by
  obtain ⟨word, -, ends, -⟩ := i.op.mnemonic_word
  intro rest
  rcases Listing.operands_cases names i with none | firm
  · have trimmed : rest = i.op.mnemonic.toList := by
      have blank := trimRight_spaces i.op.mnemonic.toList (pad + 1)
      rw [trimRight_of_ends ends] at blank
      simpa [rest, none] using blank
    refine ⟨[], ?_, by simp [none, trimLeft]⟩
    rw [trimmed, cutAt?_eq_none word]
    rfl
  · have kept : rest = i.op.mnemonic.toList ++
        (' ' :: [] ++ (List.replicate pad ' ' ++ (Listing.operands names i).toList)) :=
      trimRight_of_ends ((firm.ends.append_reverse _).append_reverse _)
    refine ⟨List.replicate pad ' ' ++ (Listing.operands names i).toList, ?_, ?_⟩
    · rw [kept, cutAt?_append word]
      rfl
    · rw [trimLeft_spaces, trimLeft_of_begins firm.begins]

theorem colourLine_line (names : Option NamePool) (offset : Nat) (i : Instruction) :
    colourLine (Listing.line names offset i).toList = shownLine names offset i := by
  obtain ⟨-, -, -, short⟩ := i.op.mnemonic_word
  obtain ⟨pad, pad_eq⟩ : ∃ pad, Listing.mnemonicWidth - i.op.mnemonic.length = pad + 1 :=
    Nat.exists_eq_add_one_of_ne_zero (by omega)
  have digits : ' ' ∉ (toString offset).toList :=
    fun mem => absurd (solid_toString offset _ mem) (by decide)
  have apart : (Listing.line names offset i).toList =
      List.replicate (Listing.offsetWidth - (toString offset).length) ' ' ++
        ((toString offset).toList ++
        (' ' :: [' '] ++
          (i.op.mnemonic.toList ++
            (List.replicate (pad + 1) ' ' ++ (Listing.operands names i).toList)))) := by
    simp [Listing.line_eq, alignRight, alignLeft, pad_eq]
  obtain ⟨behind, cut, rest⟩ := cut_operands names i pad
  -- The blanks in front are trimmed, and the first gap is the one behind the offset.
  unfold colourLine
  rw [apart, trimLeft_spaces, trimLeft_of_begins ((firm_toString offset).begins.append _),
    cutAt?_append digits]
  simp only [cut, rest, String.ofList_toList, shownLine]

/-! ## Lines of a listing -/

theorem toList_colourListing (listing : String) :
    (colourListing listing).toList = (lines listing.toList).flatMap fun line =>
      (colourLine line).toList ++ ['\n'] := by
  have shown :=
    Json.toList_foldl_append (fun line => colourLine line ++ "\n") (lines listing.toList) ""
  simpa [colourListing, String.append_assoc] using shown

/-- A line of an instruction ends with a blank of the padding or with an operand, and never with a
    carriage return. -/
theorem dropReturn_line (names : Option NamePool) (offset : Nat) (i : Instruction) :
    dropReturn (Listing.line names offset i).toList = (Listing.line names offset i).toList := by
  obtain ⟨-, -, -, short⟩ := i.op.mnemonic_word
  rcases Listing.operands_cases names i with none | firm
  · have last : (Listing.line names offset i).toList.getLast? = some ' ' := by
      rw [Listing.line_eq, none, alignLeft, String.append_empty, ← String.append_assoc,
        String.toList_append, String.toList_ofList, List.getLast?_append, List.getLast?_replicate,
        if_neg (Nat.sub_ne_zero_of_lt short)]
      rfl
    rw [dropReturn, last, if_neg (by decide)]
  · rw [Listing.line_eq, String.toList_append]
    exact dropReturn_of_ends (firm.ends.append_reverse _)

/-- A line that is one line is shown on its own, behind the lines before it. -/
theorem colourListing_append (names : Option NamePool) (before after : List Instruction)
    {i : Instruction}
    (unbroken : '\n' ∉ (Listing.line names before.length i).toList) :
    colourListing (Listing.render names (before ++ i :: after)) =
      colourListing (Listing.render names before) ++ shownLine names before.length i ++ "\n" ++
        colourListing (Listing.write names "" (before.length + 1) after) := by
  have apart : (Listing.render names (before ++ i :: after)).toList =
      (Listing.render names before).toList ++ ((Listing.line names before.length i).toList ++
        '\n' :: (Listing.write names "" (before.length + 1) after).toList) := by
    simp [Listing.toList_render, Listing.toList_write, Listing.shownLines, List.zipIdx_append,
      List.zipIdx_cons]
  apply String.toList_inj.mp
  rw [toList_colourListing, apart, Listing.toList_render, lines_flatMap, lines_cons unbroken,
    dropReturn_line]
  simp [toList_colourListing, Listing.toList_render, colourLine_line]

theorem withoutCodes_between (on off : Nat) {text : String} (plain : '\x1b' ∉ text.toList)
    (rest : List Char) :
    withoutCodes ((between on off text).toList ++ rest) = text.toList ++ withoutCodes rest := by
  have apart : (between on off text).toList ++ rest = ("\x1b[" ++ toString on ++ "m").toList ++
      (text.toList ++ (("\x1b[" ++ toString off ++ "m").toList ++ rest)) := by
    simp [between]
  rw [apart, withoutCodes_of_code (afterCode?_code on _), withoutCodes_append plain,
    withoutCodes_of_code (afterCode?_code off _)]

/-- Only the codes are added to a line. -/
theorem withoutCodes_shownLine (names : Option NamePool) (offset : Nat) (i : Instruction) :
    withoutCodes (shownLine names offset i).toList =
      withoutCodes (Listing.line names offset i).toList := by
  obtain ⟨-, word, -, -⟩ := i.op.mnemonic_word
  have start : '\x1b' ∉ (alignRight Listing.offsetWidth (toString offset)).toList := by
    have none : '\x1b' ∉ (toString offset).toList :=
      fun mem => absurd (isDigit_toString offset _ mem) (by decide)
    simpa [alignRight] using none
  have gap : '\x1b' ∉ "  ".toList := by decide
  have padded : '\x1b' ∉ (alignLeft Listing.mnemonicWidth i.op.mnemonic).toList := by
    simpa [alignLeft] using word
  simp only [shownLine, Listing.line_eq, dimmed, cyan, String.toList_append, List.append_assoc]
  rw [withoutCodes_between _ _ start, withoutCodes_append start, withoutCodes_append gap,
    withoutCodes_append gap, withoutCodes_between _ _ padded, withoutCodes_append padded]

/-- The line of an instruction that is one line is shown as the listing has it, and only codes are
    added: around its offset and around its operation. -/
theorem colourListing_line (names : Option NamePool) (before after : List Instruction)
    (i : Instruction)
    (unbroken : '\n' ∉ (Listing.line names before.length i).toList) :
    colourListing (Listing.render names (before ++ i :: after)) =
        colourListing (Listing.render names before) ++ shownLine names before.length i ++ "\n" ++
          colourListing (Listing.write names "" (before.length + 1) after) ∧
      (∃ start word rest, Listing.line names before.length i = start ++ "  " ++ word ++ rest ∧
        shownLine names before.length i = dimmed start ++ "  " ++ cyan word ++ rest) ∧
      withoutCodes (shownLine names before.length i).toList =
        withoutCodes (Listing.line names before.length i).toList ∧
      ('\x1b' ∉ (Listing.line names before.length i).toList →
        withoutCodes (shownLine names before.length i).toList =
          (Listing.line names before.length i).toList) := by
  refine ⟨colourListing_append names before after unbroken,
    ⟨_, _, _, Listing.line_eq names _ i, rfl⟩, withoutCodes_shownLine names _ i, fun plain => ?_⟩
  rw [withoutCodes_shownLine, withoutCodes_of_plain plain]

/-- A function literal whose name holds a gap, and ends with one. -/
def spacedName : Instruction :=
  { op := .pushFunction, operand := some (.function ⟨some "f  g  ", [], []⟩),
    extra := some (.flag true) }

/-- The instruction before takes two lines. -/
theorem colourListing_spacedName :
    '\n' ∉ (Listing.line none 1 spacedName).toList ∧
      colourListing (Listing.render none [Listing.brokenName, spacedName]) =
        colourListing (Listing.render none [Listing.brokenName]) ++
          shownLine none 1 spacedName ++ "\n" ∧
      shownLine none 1 spacedName =
        "\x1b[2m   1\x1b[0m  \x1b[36mpush_function         \x1b[39m<function f  g  >, create" ∧
      withoutCodes (shownLine none 1 spacedName).toList =
        (Listing.line none 1 spacedName).toList := by
  have unbroken : '\n' ∉ (Listing.line none 1 spacedName).toList := by decide
  obtain ⟨shown, -, -, seen⟩ := colourListing_line none [Listing.brokenName] [] spacedName unbroken
  exact ⟨unbroken, shown, rfl, seen (by decide)⟩

end Command

end StackScript
