import StackScript.Proofs.Tree.RoundTrip

/-!
# Texts of trees

A tree is read from every text that spells it, however the fields of its records are arranged and
wherever there are spaces, and its printed form is one of these texts. Other texts may be nested
deeper than the printed one, so that there are trees that are read from their printed form and not
from another.
-/

namespace StackScript

open Command (nestingLimit)
open Number (ReadsBack)

/-- The texts that stand for one thing, each with its nesting: one of its values, with its tokens in
    their order and spaces between them at will. -/
def Spelling.Spells (spelling : Spelling) (nesting : Nat) (text : String) : Prop :=
  ∃ value : Json, spelling value nesting ∧ Json.Spelled (value.tokens []) text.toList

section

variable {α : Type} {read : Reader α} {spelling : Spelling} {a : α}

theorem Spelling.Printed.spells {value : Json} (h : Printed spelling value)
    (sound : spelling.Sound) : spelling.Spells value.depth value.render :=
  ⟨value, h, (sound value _ h).1.spelled_render⟩

theorem Spelling.Spells.text_eq (understood : ∀ n, Reader.Reads n read spelling a) {nesting : Nat}
    {text : String} (h : spelling.Spells nesting text) (limit : Nat) :
    read.text (some limit) text = Reader.answer nesting limit a := by
  obtain ⟨value, spelled, written⟩ := h
  exact Reader.text_of_spelled understood spelled written limit

end

/-- A tree whose numbers are each read back from their own text is read from each of its texts that
    is not nested deeper than a file may be, and the others are refused. Its printed form is one of
    its texts. In the others the fields of a record stand in any order, with unknown ones among them
    and without those that are null and may be missing, or as an array in their own order; a variant
    without data may be an object with null in it; and there are spaces. -/
theorem read_spelled_tree :
    (∀ e : Expression, EachNumber.expression ReadsBack e →
      (Spelling.expression e).Spells (Printer.expression e).depth e.print ∧
      ∀ nesting text, (Spelling.expression e).Spells nesting text →
        Expression.reader.text (some nestingLimit) text =
          if nesting ≤ nestingLimit then .ok e else .error .invalid) ∧
    (∀ s : Statement, EachNumber.statement ReadsBack s →
      (Spelling.statement s).Spells (Printer.statement s).depth s.print ∧
      ∀ nesting text, (Spelling.statement s).Spells nesting text →
        Statement.reader.text (some nestingLimit) text =
          if nesting ≤ nestingLimit then .ok s else .error .invalid) ∧
    (∀ p : Program, EachNumber.statements ReadsBack p.body →
      (Spelling.program p).Spells
        (Json.record [("body", .array (Printer.statements p.body))]).depth p.print ∧
      ∀ nesting text, (Spelling.program p).Spells nesting text →
        Program.reader.text (some nestingLimit) text =
          if nesting ≤ nestingLimit then .ok p else .error .invalid) := by
  refine ⟨?_, ?_, ?_⟩
  · intro e numbers
    have understood := Reader.reads_expression numbers
    refine ⟨(Spelling.printed_expression e numbers).spells (understood 0).sound, ?_⟩
    intro nesting text spelled
    exact spelled.text_eq understood nestingLimit
  · intro s numbers
    have understood := Reader.reads_statement numbers
    refine ⟨(Spelling.printed_statement s numbers).spells (understood 0).sound, ?_⟩
    intro nesting text spelled
    exact spelled.text_eq understood nestingLimit
  · intro p numbers
    have understood := Reader.reads_program numbers
    refine ⟨(Spelling.printed_program numbers).spells (understood 0).sound, ?_⟩
    intro nesting text spelled
    exact spelled.text_eq understood nestingLimit

/-- A loop without a head, and a sum with a negative zero. -/
def assortedStatement : Statement :=
  .ifElse (.binary .add (.name "a") (.literal (.number (-0.0))))
    (.forLoop none none none .empty) none

/-- The fields of the first record are in another order, and the one that is null is missing. The
    second has an unknown field and only one of its own. The others are arrays. -/
def assortedValue : Json :=
  .record [("If", .record [
    ("consequent", .record [("For", .record [
      ("note", .array [.array [.array [.number "1e400", .string none]]]),
      ("body", .record [("Empty", .null)])])]),
    ("test", .record [("Binary", .array [.record [("Add", .null)],
      .record [("Identifier", .array [.ofString "a"])],
      .record [("Literal", .record [("Number", .number "-0.0")])]])])])]

theorem writable_note :
    (Json.array [.array [.array [.number "1e400", .string none]]]).Writable := by
  have numeral : Json.IsNumeral "1e400".toList := by
    have whole : Json.IsDigits ['1'] := Number.isDigits_toDigits 1
    have power : Json.IsDigits ['4', '0', '0'] := Number.isDigits_toDigits 400
    exact .plain (.mk whole (by simp) .none (.mark (.inl rfl) (.inl rfl) power))
  have items : ∀ item ∈ [Json.number "1e400", .string none], item.Writable := by
    intro item mem
    rcases List.mem_pair.mp mem with rfl | rfl
    · exact .number numeral
    · exact .string none
  refine .array (List.forall_mem_singleton.mpr (.array (List.forall_mem_singleton.mpr ?_)))
  exact .array items

/-- The value of the unknown field is nested deeper than the rest, and does not count. -/
theorem spelling_assortedValue : Spelling.statement assortedStatement assortedValue 6 := by
  have zero : Spelling.number (-0.0) (.number "-0.0") 0 := ⟨rfl, rfl⟩
  have sum : Spelling.expression (.binary .add (.name "a") (.literal (.number (-0.0))))
      (.record [("Binary", .array [.record [("Add", .null)],
        .record [("Identifier", .array [.ofString "a"])],
        .record [("Literal", .record [("Number", .number "-0.0")])]])]) _ :=
    .mk (.array (.cons .key <| .cons (.mk (.array (.cons ⟨rfl, rfl⟩ .nil))) <|
      .cons (.mk (.mk zero)) .nil))
  have unknown : ∀ member ∈
      [("note", Json.array [.array [.array [.number "1e400", .string none]]])],
      member.1 ∉ ["init", "test", "update", "body"] ∧ member.2.Writable := by
    intro member mem
    obtain rfl := List.mem_singleton.mp mem
    exact ⟨by simp, writable_note⟩
  have loop : Spelling.statement (.forLoop none none none .empty) (.record [("For", .record [
      ("note", .array [.array [.array [.number "1e400", .string none]]]),
      ("body", .record [("Empty", .null)])])]) _ :=
    .mk (.object (.drop rfl ⟨rfl, rfl⟩ <| .drop rfl ⟨rfl, rfl⟩ <| .drop rfl ⟨rfl, rfl⟩ <|
      .keep .key .nil) unknown (.swap ..))
  have nothing : ∀ member ∈ ([] : List (String × Json)),
      member.1 ∉ ["test", "consequent", "alternate"] ∧ member.2.Writable := by
    simp
  have whole : Spelling.statement assortedStatement assortedValue _ :=
    .mk (.object (.keep sum <| .keep loop <| .drop rfl ⟨rfl, rfl⟩ .nil) nothing (.swap ..))
  exact whole

/-- The text of the value with a space behind each token. -/
def assortedText : String :=
  "\x7b \"If\" : \x7b \"consequent\" : \x7b \"For\" : \x7b \"note\" : " ++
    "[ [ [ 1e400 , \"\\ud800\" ] ] ] , \"body\" : \x7b \"Empty\" : null \x7d \x7d \x7d , " ++
    "\"test\" : \x7b \"Binary\" : [ \x7b \"Add\" : null \x7d , " ++
    "\x7b \"Identifier\" : [ \"a\" ] \x7d , " ++
    "\x7b \"Literal\" : \x7b \"Number\" : -0.0 \x7d \x7d ] \x7d \x7d \x7d "

theorem spelled_spaced {tokens : List Json.Token} (h : Json.Proper tokens) :
    Json.Spelled tokens
      (tokens.foldl (fun shown token => shown ++ (token.spell ++ " ")) "").toList := by
  rw [Json.toList_foldl_append]
  induction tokens with
  | nil => exact .nil
  | cons token tokens ih =>
    rw [String.toList_empty, List.nil_append, List.flatMap_cons, String.toList_append,
      List.append_assoc]
    exact .token h.1.form (.space rfl (ih h.2.2))

/-- The statement is read from the text. -/
theorem read_spelled_assortedStatement :
    EachNumber.statement ReadsBack assortedStatement ∧
      (Spelling.statement assortedStatement).Spells 6 assortedText ∧
      Statement.reader.text (some nestingLimit) assortedText = .ok assortedStatement := by
  have zero : ReadsBack (-0.0) := Number.readsBack_of_isFinite (by decide)
  have numbers : EachNumber.statement ReadsBack assortedStatement :=
    ⟨⟨trivial, zero⟩, ⟨trivial, trivial, trivial, trivial⟩, trivial⟩
  have text : assortedText =
      (assortedValue.tokens []).foldl (fun shown token => shown ++ (token.spell ++ " ")) "" := by
    decide +kernel
  have writable : assortedValue.Writable :=
    ((Reader.reads_statement numbers 0).sound _ _ spelling_assortedValue).1
  have spelled : (Spelling.statement assortedStatement).Spells 6 assortedText :=
    ⟨assortedValue, spelling_assortedValue, text ▸ spelled_spaced writable.proper⟩
  exact ⟨numbers, spelled,
    (read_spelled_tree.2.1 assortedStatement numbers).2 6 assortedText spelled⟩

/-! ## Texts that are nested deeper than the printed one -/

/-- A value under so many signs of negation. -/
def negatedValue : Nat → Json → Json
  | 0, value => value
  | n + 1, value => .record [("Unary", .record [
      ("operator", .ofString "LogicalNot"), ("argument", negatedValue n value)])]

theorem spelling_negatedValue {e : Expression} {value : Json} {d : Nat}
    (h : Spelling.expression e value d) (n : Nat) :
    Spelling.expression (negated n e) (negatedValue n value) (d + 2 * n) := by
  induction n with
  | zero => exact h
  | succ n ih =>
    have whole : Spelling.expression (negated (n + 1) e) (negatedValue (n + 1) value) _ :=
      .mk (.inOrder (.keep .name <| .keep ih .nil))
    simpa [Nat.mul_add, Nat.add_assoc] using whole

/-- The tree is read from its printed form, and not from the text in which the innermost part is an
    object with null in it, though there is no number in the tree. -/
theorem respelled_negation_refused :
    let tree := negated 62 (.array [some .thisValue])
    let respelled := negatedValue 62 (.record [("Array", .record [
      ("elements", .array [.record [("This", .null)]])])])
    EachNumber.expression (fun x => Number.isFinite x = true) tree ∧
      Expression.reader.text (some nestingLimit) tree.print = .ok tree ∧
      (Spelling.expression tree).Spells 128 respelled.render ∧
      Expression.reader.text (some nestingLimit) respelled.render = .error .invalid := by
  have numbers (P : Float → Prop) : EachNumber.expression P (.array [some .thisValue]) :=
    ⟨trivial, trivial⟩
  have tree := eachNumber_negated _ _ (numbers ReadsBack) 62
  have innermost : Spelling.expression (.array [some .thisValue]) (.record [("Array", .record [
      ("elements", .array [.record [("This", .null)]])])]) _ :=
    .mk (.inOrder (.keep ⟨_, _, rfl, rfl, .cons .key .nil⟩ .nil))
  have respelled := spelling_negatedValue innermost 62
  have understood := Reader.reads_expression tree
  have spells : (Spelling.expression (negated 62 (.array [some .thisValue]))).Spells 128 _ :=
    ⟨_, respelled, ((understood 0).sound _ _ respelled).1.spelled_render⟩
  refine ⟨eachNumber_negated _ _ (numbers _) 62, ?_, spells, spells.text_eq understood nestingLimit⟩
  rw [Expression.text_print tree, depth_negated]
  rfl

end StackScript
