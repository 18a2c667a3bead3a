import Mathlib.Algebra.Ring.Nat
import StackScript.Code.Listing

/-!
# The lines of a listing

A listing has a line feed behind every instruction. Names and literal text are quoted, and a line
feed in them is shown by an escape; only the name of a function literal is shown as it is. So the
lines of a listing are the lines of its instructions, unless the name of a function holds a line
feed, and then there are exactly as many more.
-/

namespace StackScript

/-! ## Text without line feeds -/

namespace Text

/-- How many line feeds the text holds. -/
def feeds (text : String) : Nat :=
  text.toList.count '\n'

/-- Line feeds are counted piece by piece. -/
@[simp]
theorem feeds_append (s t : String) : feeds (s ++ t) = feeds s + feeds t := by
  simp [feeds]

theorem feeds_eq_zero_iff (text : String) : feeds text = 0 ↔ '\n' ∉ text.toList :=
  List.count_eq_zero

theorem feeds_ofList_replicate {c : Char} (other : c ≠ '\n') (n : Nat) :
    feeds (String.ofList (List.replicate n c)) = 0 := by
  rw [feeds, String.toList_ofList, List.count_replicate]
  simp [other]

/-- Only some of the characters of a text are taken. -/
theorem feeds_ofList_of_sublist {text : String} {part : List Char}
    (taken : part.Sublist text.toList)
    (none : feeds text = 0) : feeds (String.ofList part) = 0 := by
  have le : feeds (String.ofList part) ≤ feeds text := by
    rw [feeds, String.toList_ofList]
    exact taken.count_le '\n'
  omega

/-- Padding adds no line feed. -/
theorem feeds_alignRight (width : Nat) (text : String) :
    feeds (alignRight width text) = feeds text := by
  rw [alignRight, feeds_append, feeds_ofList_replicate (by decide), Nat.zero_add]

theorem feeds_alignLeft (width : Nat) (text : String) :
    feeds (alignLeft width text) = feeds text := by
  rw [alignLeft, feeds_append, feeds_ofList_replicate (by decide), Nat.add_zero]

/-- No digit is a line feed. -/
theorem not_mem_toDigits {base : Nat} (positional : 1 < base) (n : Nat) :
    '\n' ∉ Nat.toDigits base n := by
  induction n using Nat.strongRecOn with
  | ind n ih =>
    rw [Nat.toDigits_eq_if positional]
    by_cases small : n < base
    · simp [small, (Nat.digitChar_ne '\n' rfl).symm]
    · have smaller : n / base < n := Nat.div_lt_self (by omega) positional
      simp [small, ih _ smaller, (Nat.digitChar_ne '\n' rfl).symm]

theorem feeds_toString (n : Nat) : feeds (toString n) = 0 := by
  rw [feeds_eq_zero_iff, Nat.toString_eq_ofList_toDigits, String.toList_ofList]
  exact not_mem_toDigits (by decide) n

theorem feeds_hexDigits (n : Nat) : feeds (hexDigits n) = 0 := by
  rw [feeds_eq_zero_iff, hexDigits, String.toList_ofList]
  exact not_mem_toDigits (by decide) n

/-- A line feed is quoted with two other characters. -/
theorem feeds_quotedChar (c : Char) : feeds (quotedChar c) = 0 := by
  unfold quotedChar
  split
  case h_7 c _ _ _ feed _ _ =>
    split
    · rw [feeds_append, feeds_append, feeds_hexDigits]
      rfl
    · rw [feeds_eq_zero_iff]
      simpa using Ne.symm feed
  all_goals rfl

/-- A line feed in quoted text is shown by an escape. -/
theorem feeds_quote (text : String) : feeds (quote text) = 0 := by
  have shown (cs : List Char) (s : String) :
      feeds (cs.foldl (fun shown c => shown ++ quotedChar c) s) = feeds s := by
    induction cs generalizing s with
    | nil => rfl
    | cons c cs ih => rw [List.foldl_cons, ih, feeds_append, feeds_quotedChar, Nat.add_zero]
  rw [quote, feeds_append, shown]
  rfl

end Text

open Text

/-! ## Numbers -/

namespace Number.Style

theorem feeds_zeros (n : Nat) : feeds (zeros n) = 0 :=
  feeds_ofList_replicate (by decide) n

theorem feeds_positional (style : Style) {digits : String} (none : feeds digits = 0) (whole : Int) :
    feeds (style.positional digits whole) = 0 := by
  have start (n : Nat) := feeds_ofList_of_sublist (List.take_sublist n _) none
  have rest (n : Nat) := feeds_ofList_of_sublist (List.drop_sublist n _) none
  unfold positional
  by_cases short : (digits.length : Int) ≤ whole
  · rw [if_pos short, feeds_append, feeds_append, none, feeds_zeros]
    cases style.fraction <;> rfl
  · rw [if_neg short]
    by_cases inside : 0 < whole
    · rw [if_pos inside, feeds_append, feeds_append, start, rest]
      rfl
    · rw [if_neg inside, feeds_append, feeds_append, none, feeds_zeros]
      rfl

theorem feeds_scientific (style : Style) {digits : String} (none : feeds digits = 0) (power : Int) :
    feeds (style.scientific digits power) = 0 := by
  have start := feeds_ofList_of_sublist (List.take_sublist 1 _) none
  have rest := feeds_ofList_of_sublist (List.drop_sublist 1 _) none
  have fraction : feeds (if (digits.toList.drop 1).isEmpty then ""
      else "." ++ String.ofList (digits.toList.drop 1)) = 0 := by
    split
    · rfl
    · rw [feeds_append, rest]
      rfl
  have sign : feeds (if power < 0 then "-" else if style.plus then "+" else "") = 0 := by
    split
    · rfl
    · cases style.plus <;> rfl
  have mark : feeds "e" = 0 := rfl
  simp only [scientific, feeds_append, start, fraction, sign, mark, feeds_toString]

theorem feeds_decimal (style : Style) (d : Decimal) : feeds (style.decimal d) = 0 := by
  have digits := feeds_toString d.coefficient
  unfold decimal
  split
  · exact style.feeds_positional digits _
  · dsimp only
    split
    · exact style.feeds_positional digits _
    · exact style.feeds_scientific digits _

/-- No number is written with a line feed. -/
theorem feeds_text (style : Style) (x : Float) : feeds (style.text x) = 0 := by
  unfold text
  split
  · rfl
  · split <;> rfl
  · rw [feeds_append, feeds_decimal]
    split <;> rfl

end Number.Style

/-! ## Instructions -/

/-- The line feeds in the name of the function literal that the operand may be. -/
def Operand.feeds : Operand → Nat
  | .function tree => (tree.name.map Text.feeds).getD 0
  | _ => 0

/-- The line feeds in names of function literals. -/
def Instruction.feeds (i : Instruction) : Nat :=
  (i.operand.map Operand.feeds).getD 0 + (i.extra.map Operand.feeds).getD 0

/-- No mnemonic has a line feed. -/
theorem Op.feeds_mnemonic (op : Op) : Text.feeds op.mnemonic = 0 := by
  cases op <;> rfl

/-- Nor has the name of a kind of statement. -/
theorem Statement.feeds_kind (s : Statement) : Text.feeds s.kind = 0 := by
  cases s <;> rw [Statement.kind] <;> rfl

namespace Listing

/-- Names are quoted. -/
theorem feeds_name (names : Option NamePool) (index : Nat) : Text.feeds (name names index) = 0 := by
  unfold name
  split
  · exact feeds_quote _
  · rw [feeds_append, feeds_toString]
    rfl

/-- Only the name of a function can bring a line feed into the text of an operand. -/
theorem feeds_operand (names : Option NamePool) (o : Operand) :
    Text.feeds (operand names o) = o.feeds := by
  cases o with
  | count n => exact feeds_toString n
  | flag create =>
    simp only [operand, Operand.feeds]
    cases create <;> rfl
  | number value => exact Number.Style.listing.feeds_text value
  | name index => exact feeds_name names index
  | text content => exact feeds_quote content
  | statement tree =>
    simp only [operand, feeds_append, tree.feeds_kind]
    rfl
  | function tree =>
    cases named : tree.name with
    | none =>
      simp only [operand, Operand.feeds, named]
      rfl
    | some text =>
      have around : Text.feeds "<function " = 0 ∧ Text.feeds ">" = 0 := ⟨rfl, rfl⟩
      simp [operand, Operand.feeds, named, around]
  | jump target =>
    rw [operand, feeds_append, feeds_toString]
    rfl
  | pending =>
    simp only [operand, Operand.feeds]
    rfl
  | misuse kind =>
    simp only [operand, Operand.feeds]
    cases kind <;> rfl

/-- The line feeds in a line are those in its operands. -/
theorem feeds_line (names : Option NamePool) (offset : Nat) (i : Instruction) :
    Text.feeds (line names offset i) = i.feeds := by
  have first : Text.feeds ((i.operand.map (operand names)).getD "") =
      (i.operand.map Operand.feeds).getD 0 := by
    cases i.operand with
    | none => rfl
    | some o => exact feeds_operand names o
  have second : Text.feeds ((i.extra.map fun extra => ", " ++ operand names extra).getD "") =
      (i.extra.map Operand.feeds).getD 0 := by
    cases i.extra with
    | none => rfl
    | some o =>
      have mark : Text.feeds ", " = 0 := rfl
      simp [feeds_operand, mark]
  have gap : Text.feeds "  " = 0 := rfl
  simp only [line, feeds_append, feeds_alignRight, feeds_alignLeft, feeds_toString,
    i.op.feeds_mnemonic, first, second, gap, Instruction.feeds, Nat.zero_add]

/-- A line begins with the offset. -/
theorem prefix_line (names : Option NamePool) (offset : Nat) (i : Instruction) :
    (alignRight offsetWidth (toString offset)).toList <+: (line names offset i).toList := by
  simp only [line, String.toList_append, List.append_assoc]
  exact List.prefix_append _ _

/-! ## Listings -/

/-- The lines of code whose first instruction has the given offset. -/
def shownLines (names : Option NamePool) (offset : Nat) (code : List Instruction) :
    List (List Char) :=
  (code.zipIdx offset).map fun (i, o) => (line names o i).toList

theorem shownLines_cons (names : Option NamePool) (offset : Nat) (i : Instruction)
    (rest : List Instruction) :
    shownLines names offset (i :: rest) =
      (line names offset i).toList :: shownLines names (offset + 1) rest := by
  simp [shownLines, List.zipIdx_cons]

/-- Each line ends with a line feed. -/
theorem toList_write (names : Option NamePool) (shown : String) (offset : Nat)
    (code : List Instruction) :
    (write names shown offset code).toList =
      shown.toList ++ (shownLines names offset code).flatMap (· ++ ['\n']) := by
  induction code generalizing shown offset with
  | nil => simp [write, shownLines]
  | cons i rest ih =>
    have feed : "\n".toList = ['\n'] := rfl
    rw [write, ih, shownLines_cons, List.flatMap_cons, String.toList_append,
      String.toList_append, feed]
    simp only [List.append_assoc]

theorem toList_render (names : Option NamePool) (code : List Instruction) :
    (render names code).toList = (shownLines names 0 code).flatMap (· ++ ['\n']) :=
  toList_write names "" 0 code

/-- One line feed for each instruction, and those in the operands. -/
theorem count_shownLines (names : Option NamePool) (offset : Nat) (code : List Instruction) :
    ((shownLines names offset code).flatMap (· ++ ['\n'])).count '\n' =
      code.length + (code.map Instruction.feeds).sum := by
  induction code generalizing offset with
  | nil => rfl
  | cons i rest ih =>
    have here : (line names offset i).toList.count '\n' = i.feeds := feeds_line names offset i
    rw [shownLines_cons, List.flatMap_cons, List.count_append, List.count_append, here, ih]
    simp only [List.count_singleton_self, List.length_cons, List.map_cons, List.sum_cons]
    omega

/-- Lines that hold no line feed are found again between the line feeds behind them. -/
theorem splitOn_shownLines (names : Option NamePool) (offset : Nat) (code : List Instruction)
    (unbroken : ∀ i ∈ code, i.feeds = 0) :
    ((shownLines names offset code).flatMap (· ++ ['\n'])).splitOn '\n' =
      shownLines names offset code ++ [[]] := by
  induction code generalizing offset with
  | nil => rfl
  | cons i rest ih =>
    have here : '\n' ∉ (line names offset i).toList := by
      rw [← feeds_eq_zero_iff, feeds_line]
      exact unbroken i (List.mem_cons_self ..)
    have later : ∀ j ∈ rest, j.feeds = 0 := fun j mem => unbroken j (List.mem_cons_of_mem _ mem)
    rw [shownLines_cons, List.flatMap_cons, List.append_assoc, List.singleton_append,
      List.splitOn_append_cons_self_of_not_mem here, ih _ later, List.cons_append]

/-- A listing ends with a line feed, unless there is nothing in it. -/
theorem getLast?_render (names : Option NamePool) {code : List Instruction} (some : code ≠ []) :
    (render names code).toList.getLast? = Option.some '\n' := by
  obtain ⟨before, last, rfl⟩ : ∃ before last, code = before ++ [last] :=
    ⟨_, _, (List.dropLast_concat_getLast some).symm⟩
  simp [toList_render, shownLines, List.zipIdx_append]

/-- The line of an instruction stands at its offset. -/
theorem getElem?_shownLines (names : Option NamePool) {code : List Instruction} {k : Nat}
    {i : Instruction} (found : code[k]? = some i) :
    (shownLines names 0 code)[k]? = some (line names k i).toList := by
  simp [shownLines, List.getElem?_zipIdx, found]

/-- A listing ends with a line feed, and has one for each instruction and one for each line feed in
    a name of a function literal. So it has a line for each instruction, which begins with its
    offset, if and only if no such name holds a line feed. -/
theorem lines_of_render (names : Option NamePool) (code : List Instruction) :
    feeds (render names code) = code.length + (code.map Instruction.feeds).sum ∧
      (code ≠ [] → (render names code).toList.getLast? = some '\n') ∧
      (feeds (render names code) = code.length ↔ ∀ i ∈ code, i.feeds = 0) ∧
      ((∀ i ∈ code, i.feeds = 0) → ∀ (k : Nat) i, code[k]? = some i →
        ∃ shown, ((render names code).toList.splitOn '\n')[k]? = some shown ∧
          (alignRight offsetWidth (toString k)).toList <+: shown) := by
  have counted : feeds (render names code) = code.length + (code.map Instruction.feeds).sum := by
    rw [feeds, toList_render]
    exact count_shownLines names 0 code
  refine ⟨counted, getLast?_render names, ?_, ?_⟩
  · rw [counted, Nat.add_eq_left, List.sum_eq_zero_iff_forall_eq_nat]
    simp
  · intro unbroken k i found
    have here := getElem?_shownLines names found
    have inside : k < (shownLines names 0 code).length := (List.getElem?_eq_some_iff.mp here).1
    refine ⟨(line names k i).toList, ?_, prefix_line names k i⟩
    rw [toList_render, splitOn_shownLines names 0 code unbroken,
      List.getElem?_append_left inside, here]

/-- A function literal whose name holds a line feed. -/
def brokenName : Instruction :=
  { op := .pushFunction, operand := some (.function ⟨some "f\ng", [], []⟩) }

/-- The listing of one instruction has two lines, and the second begins in the middle of the
    name. -/
theorem feeds_render_brokenName :
    [brokenName].length = 1 ∧ feeds (render none [brokenName]) = 2 ∧
      (render none [brokenName]).toList.splitOn '\n' =
        ["   0  push_function         <function f".toList, "g>".toList, []] := by
  refine ⟨rfl, ?_, ?_⟩
  · rw [feeds, toList_render, count_shownLines]
    rfl
  · decide

end Listing

end StackScript
