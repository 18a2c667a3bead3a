import StackScript.Command.Disasm
import StackScript.Proofs.Tree.Reading
import StackScript.Tree.Printer

/-!
# Printed trees

What is printed for a tree is one of its spellings, so that it is read as the same tree, with every
string and name in it and with the sign of every zero.
-/

namespace StackScript

namespace Spelling

open Number (ReadsBack)

/-- An object of the given members in the order of their fields. -/
theorem Record.inOrder {fields : List Field} {members : List (String × Json)} {k : Nat}
    (h : Given fields members k) : Record fields (.record members) (k + 1) := by
  have nothing : ∀ member ∈ ([] : List (String × Json)), member.1 ∉ fields.map (·.name) ∧
      member.2.Writable := by
    simp
  refine .object h nothing ?_
  rw [List.append_nil]

/-- The value stands for the thing, and nothing in it is skipped. -/
def Printed (spelling : Spelling) (value : Json) : Prop :=
  spelling value value.depth

/-- All fields in their order. -/
def PrintedMembers (fields : List Field) (members : List (String × Json)) : Prop :=
  Given fields members (Json.depthMembers (members.map fun (key, value) => (some key, value)))

/-- All items in their order. -/
def PrintedItems (items : List Spelling) (values : List Json) : Prop :=
  Each items values (Json.depthItems values)

section

variable {spelling : Spelling} {value : Json}

theorem Printed.exactly {simple : Json} (flat : simple.depth = 0) :
    Printed (Spelling.exactly simple) simple :=
  ⟨rfl, flat⟩

theorem Printed.bare (name : String) : Printed (Bare name) (.ofString name) :=
  .name

/-- The data of a variant, in the one object of the variant. -/
theorem Printed.tagged {name : String} (h : Printed spelling value) :
    Printed (Tagged name spelling) (.record [(name, value)]) := by
  rw [Printed, depth_variant]
  exact .mk h

theorem PrintedItems.nil : PrintedItems [] [] := by
  rw [PrintedItems, Json.depthItems]
  exact .nil

theorem PrintedItems.cons {items : List Spelling} {values : List Json} (h : Printed spelling value)
    (rest : PrintedItems items values) : PrintedItems (spelling :: items) (value :: values) := by
  rw [PrintedItems, Json.depthItems]
  exact .cons h rest

/-- All items of a list. -/
theorem Printed.array {items : List Spelling} {values : List Json}
    (h : PrintedItems items values) : Printed (Spelling.array items) (.array values) := by
  rw [Printed, Json.depth]
  exact ⟨values, _, rfl, rfl, h⟩

theorem PrintedMembers.nil : PrintedMembers [] [] := by
  rw [PrintedMembers, List.map_nil, Json.depthMembers]
  exact .nil

theorem PrintedMembers.cons {field : Field} {fields : List Field}
    {members : List (String × Json)} (h : Printed field.spelling value)
    (rest : PrintedMembers fields members) :
    PrintedMembers (field :: fields) ((field.name, value) :: members) := by
  rw [PrintedMembers, List.map_cons, Json.depthMembers]
  exact .keep h rest

/-- All fields of a record, in the one object of the record. -/
theorem Printed.record {fields : List Field} {members : List (String × Json)}
    (h : PrintedMembers fields members) : Printed (Record fields) (.record members) := by
  rw [Printed, Json.record, Json.depth]
  exact .inOrder h

end

/-! ## Small parts -/

theorem printed_text (content : String) : Printed (text content) (.ofString content) :=
  .exactly rfl

theorem printed_bool (b : Bool) : Printed (bool b) (.bool b) :=
  .exactly rfl

theorem printed_null : Printed null .null :=
  .exactly rfl

theorem printed_identifier (name : String) : Printed (identifier name) (Printer.identifier name) :=
  .record (.cons (printed_text name) .nil)

theorem printed_identifier? : (name : Option String) →
    Printed (identifier? name) (Printer.identifier? name)
  | some name => printed_identifier name
  | none => printed_null

/-- Each name of a list is a record. -/
theorem printed_identifiers (names : List String) :
    Printed (identifiers names) (Printer.identifiers names) := by
  refine .array ?_
  induction names with
  | nil => exact .nil
  | cons name names ih => exact .cons (printed_identifier name) ih

/-- A finite number is printed as a numeral, and not as null. -/
theorem printed_number {x : Float} (h : ReadsBack x) : Printed (number x) (Printer.number x) := by
  rw [Printer.number, if_pos h.finite]
  exact .exactly rfl

theorem printed_literal {l : Literal} (h : EachNumber.literal ReadsBack l) :
    Printed (literal l) (Printer.literal l) := by
  cases l with
  | number value => exact .tagged (printed_number h)
  | string text => exact .tagged (printed_text text)
  | regExp pattern flags =>
    exact .tagged (.record (.cons (printed_text pattern) <| .cons (printed_text flags) .nil))
  | boolean value => exact .tagged (printed_bool value)
  | null => exact .bare _
  | undefined => exact .bare _

theorem printed_propertyKey {key : PropertyKey} (h : EachNumber.propertyKey ReadsBack key) :
    Printed (propertyKey key) (Printer.propertyKey key) := by
  cases key with
  | name text => exact .tagged (printed_identifier text)
  | string text => exact .tagged (printed_text text)
  | number value => exact .tagged (printed_number h)

/-- A record with the one field `body`. -/
theorem printed_body {items : List Spelling} {values : List Json}
    (each : PrintedItems items values) :
    Printed (Record [field "body" (array items)]) (.record [("body", .array values)]) :=
  .record (.cons (.array each) .nil)

/-! ## Trees -/

mutual

/-- An expression is printed as one of its spellings, of which nothing is skipped. -/
theorem printed_expression : (e : Expression) → EachNumber.expression ReadsBack e →
    Printed (expression e) (Printer.expression e)
  | .literal _, h => .tagged (printed_literal h)
  | .name text, _ => .tagged (printed_identifier text)
  | .thisValue, _ => .bare _
  | .function name params body, h =>
    .tagged (.record (.cons (printed_identifier? name) <| .cons (printed_identifiers params) <|
      .cons (.array (printed_statements body h)) .nil))
  | .array elems, h => .tagged (.record (.cons (.array (printed_elements elems h)) .nil))
  | .object props, h => .tagged (.record (.cons (.array (printed_properties props h)) .nil))
  | .member object name, h =>
    .tagged (.record (.cons (printed_expression object h) <|
      .cons (.tagged (printed_identifier name)) .nil))
  | .index object key, h =>
    .tagged (.record (.cons (printed_expression object h.1) <|
      .cons (.tagged (printed_expression key h.2)) .nil))
  | .call callee arguments, h =>
    .tagged (.record (.cons (printed_expression callee h.1) <|
      .cons (.array (printed_expressions arguments h.2)) .nil))
  | .construct callee arguments, h =>
    .tagged (.record (.cons (printed_expression callee h.1) <|
      .cons (.array (printed_expressions arguments h.2)) .nil))
  | .unary _ argument, h =>
    .tagged (.record (.cons (.bare _) <| .cons (printed_expression argument h) .nil))
  | .update _ argument before, h =>
    .tagged (.record (.cons (.bare _) <| .cons (printed_expression argument h) <|
      .cons (printed_bool before) .nil))
  | .binary _ left right, h =>
    .tagged (.record (.cons (.bare _) <| .cons (printed_expression left h.1) <|
      .cons (printed_expression right h.2) .nil))
  | .logical _ left right, h =>
    .tagged (.record (.cons (.bare _) <| .cons (printed_expression left h.1) <|
      .cons (printed_expression right h.2) .nil))
  | .assignment _ target value, h =>
    .tagged (.record (.cons (.bare _) <| .cons (printed_expression target h.1) <|
      .cons (printed_expression value h.2) .nil))
  | .conditional test consequent alternate, h =>
    .tagged (.record (.cons (printed_expression test h.1) <|
      .cons (printed_expression consequent h.2.1) <|
        .cons (printed_expression alternate h.2.2) .nil))
  | .sequence items, h => .tagged (.record (.cons (.array (printed_expressions items h)) .nil))

theorem printed_expression? : (e : Option Expression) → EachNumber.expression? ReadsBack e →
    Printed (expression? e) (Printer.expression? e)
  | none, _ => printed_null
  | some e, h => printed_expression e h

theorem printed_expressions : (es : List Expression) → EachNumber.expressions ReadsBack es →
    PrintedItems (expressions es) (Printer.expressions es)
  | [], _ => .nil
  | e :: es, h => .cons (printed_expression e h.1) (printed_expressions es h.2)

/-- A hole is printed as null. -/
theorem printed_elements : (es : List (Option Expression)) → EachNumber.elements ReadsBack es →
    PrintedItems (elements es) (Printer.elements es)
  | [], _ => .nil
  | some e :: es, h => .cons (printed_expression e h.1) (printed_elements es h.2)
  | none :: es, h => .cons printed_null (printed_elements es h)

theorem printed_properties : (ps : List (Property Expression)) →
    EachNumber.properties ReadsBack ps →
    PrintedItems (properties ps) (Printer.properties ps)
  | [], _ => .nil
  | ⟨_, value⟩ :: ps, h =>
    .cons (.record (.cons (printed_propertyKey h.1) <|
      .cons (printed_expression value h.2.1) .nil))
      (printed_properties ps h.2.2)

theorem printed_declarators : (ds : List (Declarator Expression)) →
    EachNumber.declarators ReadsBack ds →
    PrintedItems (declarators ds) (Printer.declarators ds)
  | [], _ => .nil
  | ⟨name, init⟩ :: ds, h =>
    .cons (.record (.cons (printed_identifier name) <| .cons (printed_expression? init h.1) .nil))
      (printed_declarators ds h.2)

theorem printed_loopHead : (head : LoopHead Expression) → EachNumber.loopHead ReadsBack head →
    Printed (loopHead head) (Printer.loopHead head)
  | .declaration ds, h => .tagged (.record (.cons (.array (printed_declarators ds h)) .nil))
  | .expression value, h => .tagged (printed_expression value h)

theorem printed_loopHead? : (head : Option (LoopHead Expression)) →
    EachNumber.loopHead? ReadsBack head →
    Printed (loopHead? head) (Printer.loopHead? head)
  | none, _ => printed_null
  | some head, h => printed_loopHead head h

/-- A statement is printed as one of its spellings. -/
theorem printed_statement : (s : Statement) → EachNumber.statement ReadsBack s →
    Printed (statement s) (Printer.statement s)
  | .block body, h => .tagged (printed_body (printed_statements body h))
  | .expression value, h => .tagged (.record (.cons (printed_expression value h) .nil))
  | .declaration decls, h => .tagged (.record (.cons (.array (printed_declarators decls h)) .nil))
  | .ifElse test consequent alternate, h =>
    .tagged (.record (.cons (printed_expression test h.1) <|
      .cons (printed_statement consequent h.2.1) <|
      .cons (printed_statement? alternate h.2.2) .nil))
  | .whileLoop test body, h =>
    .tagged (.record (.cons (printed_expression test h.1) <|
      .cons (printed_statement body h.2) .nil))
  | .doWhile body test, h =>
    .tagged (.record (.cons (printed_statement body h.1) <|
      .cons (printed_expression test h.2) .nil))
  | .forLoop init test update body, h =>
    .tagged (.record (.cons (printed_loopHead? init h.1) <|
      .cons (printed_expression? test h.2.1) <|
      .cons (printed_expression? update h.2.2.1) <| .cons (printed_statement body h.2.2.2) .nil))
  | .empty, _ => .bare _
  | .forIn head object body, h =>
    .tagged (.record (.cons (printed_loopHead head h.1) <|
      .cons (printed_expression object h.2.1) <|
      .cons (printed_statement body h.2.2) .nil))
  | .ret value, h => .tagged (.record (.cons (printed_expression? value h) .nil))
  | .breakTo label, _ => .tagged (printed_identifier? label)
  | .continueTo label, _ => .tagged (printed_identifier? label)
  | .throw value, h => .tagged (.record (.cons (printed_expression value h) .nil))
  | .tryCatch body handler finalizer, h =>
    .tagged (.record (.cons (printed_body (printed_statements body h.1)) <|
      .cons (printed_handler? handler h.2.1) <|
      .cons (printed_block? finalizer h.2.2) .nil))
  | .switch subject cases, h =>
    .tagged (.record (.cons (printed_expression subject h.1) <|
      .cons (.array (printed_clauses cases h.2)) .nil))
  | .withObject object body, h =>
    .tagged (.record (.cons (printed_expression object h.1) <|
      .cons (printed_statement body h.2) .nil))
  | .labeled label body, h =>
    .tagged (.record (.cons (printed_identifier label) <| .cons (printed_statement body h) .nil))
  | .function name params body, h =>
    .tagged (.record (.cons (printed_identifier name) <| .cons (printed_identifiers params) <|
      .cons (.array (printed_statements body h)) .nil))

theorem printed_statement? : (s : Option Statement) → EachNumber.statement? ReadsBack s →
    Printed (statement? s) (Printer.statement? s)
  | none, _ => printed_null
  | some s, h => printed_statement s h

theorem printed_statements : (b : List Statement) → EachNumber.statements ReadsBack b →
    PrintedItems (statements b) (Printer.statements b)
  | [], _ => .nil
  | s :: b, h => .cons (printed_statement s h.1) (printed_statements b h.2)

theorem printed_handler? : (handler : Option (Handler Statement)) →
    EachNumber.handler? ReadsBack handler →
    Printed (handler? handler) (Printer.handler? handler)
  | none, _ => printed_null
  | some ⟨param, body⟩, h =>
    .record (.cons (printed_identifier param) <|
      .cons (printed_body (printed_statements body h)) .nil)

theorem printed_block? : (body : Option (List Statement)) → EachNumber.block? ReadsBack body →
    Printed (block? body) (Printer.block? body)
  | none, _ => printed_null
  | some body, h => printed_body (printed_statements body h)

theorem printed_clauses : (cases : List (Clause Expression Statement)) →
    EachNumber.clauses ReadsBack cases →
    PrintedItems (clauses cases) (Printer.clauses cases)
  | [], _ => .nil
  | ⟨test, body⟩ :: cases, h =>
    .cons (.record (.cons (printed_expression? test h.1) <|
      .cons (.array (printed_statements body h.2.1)) .nil)) (printed_clauses cases h.2.2)

end

theorem printed_program {p : Program} (h : EachNumber.statements ReadsBack p.body) :
    Printed (program p) (.record [("body", .array (Printer.statements p.body))]) :=
  printed_body (printed_statements p.body h)

end Spelling

/-! ## Texts -/

open Number (ReadsBack)
open Command (nestingLimit)

/-- The text of a printed value is read, if there is room for it. -/
theorem Reader.text_render {α : Type} {read : Reader α} {spelling : Spelling} {a : α}
    (h : ∀ n, Reads n read spelling a) {value : Json} (printed : Spelling.Printed spelling value)
    (limit : Nat) : read.text (some limit) value.render = answer value.depth limit a :=
  Reader.text_of_spelled h printed ((h 0).sound _ _ printed).1.spelled_render limit

/-- The printed form of an expression is read, if there is room for it. -/
theorem Expression.text_print {e : Expression} (numbers : EachNumber.expression ReadsBack e)
    (limit : Nat) : Expression.reader.text (some limit) e.print =
      Reader.answer (Printer.expression e).depth limit e :=
  Reader.text_render (Reader.reads_expression numbers) (Spelling.printed_expression e numbers) limit

/-- The printed form of a statement is read, if there is room for it. -/
theorem Statement.text_print {s : Statement} (numbers : EachNumber.statement ReadsBack s)
    (limit : Nat) : Statement.reader.text (some limit) s.print =
      Reader.answer (Printer.statement s).depth limit s :=
  Reader.text_render (Reader.reads_statement numbers) (Spelling.printed_statement s numbers) limit

/-- The printed form of a program is read, if there is room for it. -/
theorem Program.text_print {p : Program} (numbers : EachNumber.statements ReadsBack p.body)
    (limit : Nat) : Program.reader.text (some limit) p.print =
      Reader.answer (Json.record [("body", .array (Printer.statements p.body))]).depth limit p :=
  Reader.text_render (Reader.reads_program numbers) (Spelling.printed_program numbers) limit

/-- The printed form of a tree is read as the very same tree, if the numbers in it are finite and
    each is read back from its own text, and if no more arrays and objects are open in it at once
    than a file may have. With more of them it is refused. -/
theorem read_printed_tree :
    (∀ e : Expression, EachNumber.expression ReadsBack e →
      Expression.reader.text (some nestingLimit) e.print =
        if (Printer.expression e).depth ≤ nestingLimit then .ok e else .error .invalid) ∧
    (∀ s : Statement, EachNumber.statement ReadsBack s →
      Statement.reader.text (some nestingLimit) s.print =
        if (Printer.statement s).depth ≤ nestingLimit then .ok s else .error .invalid) ∧
    (∀ p : Program, EachNumber.statements ReadsBack p.body →
      Program.reader.text (some nestingLimit) p.print =
        if (Json.record [("body", .array (Printer.statements p.body))]).depth ≤ nestingLimit then
          .ok p
        else .error .invalid) := by
  refine ⟨?_, ?_, ?_⟩
  · intro e numbers
    exact Expression.text_print numbers nestingLimit
  · intro s numbers
    exact Statement.text_print numbers nestingLimit
  · intro p numbers
    exact Program.text_print numbers nestingLimit

/-- Numbers as a key and as a value, among them a negative zero, a hole, absent parts, and
    characters that are escaped or beyond ASCII. -/
def assortedProgram : Program :=
  ⟨[.expression (.object [⟨.number 0.1, .literal (.number (-0.0))⟩,
      ⟨.string "\"\\\n\x01", .array [none, some (.name "日本😀")]⟩]),
    .forLoop none none none (.breakTo none)]⟩

/-- The program is read back. -/
theorem read_printed_assortedProgram :
    EachNumber.statements ReadsBack assortedProgram.body ∧
      (Json.record [("body", .array (Printer.statements assortedProgram.body))]).depth = 13 ∧
      Program.reader.text (some nestingLimit) assortedProgram.print = .ok assortedProgram := by
  have tenth : ReadsBack 0.1 := Number.readsBack_of_isFinite (by decide)
  have zero : ReadsBack (-0.0) := Number.readsBack_of_isFinite (by decide)
  have object : EachNumber.properties ReadsBack [⟨.number 0.1, .literal (.number (-0.0))⟩,
      ⟨.string "\"\\\n\x01", .array [none, some (.name "日本😀")]⟩] :=
    ⟨tenth, zero, trivial, ⟨trivial, trivial⟩, trivial⟩
  have numbers : EachNumber.statements ReadsBack assortedProgram.body :=
    ⟨object, ⟨trivial, trivial, trivial, trivial⟩, trivial⟩
  have depth :
      (Json.record [("body", .array (Printer.statements assortedProgram.body))]).depth = 13 := by
    decide
  refine ⟨numbers, depth, ?_⟩
  have read := read_printed_tree.2.2 assortedProgram numbers
  rwa [depth, if_pos (by decide)] at read

/-! ## Trees that are nested too deep -/

/-- A tree under so many signs of negation. -/
def negated : Nat → Expression → Expression
  | 0, e => e
  | n + 1, e => .unary .not (negated n e)

theorem eachNumber_negated (P : Float → Prop) (e : Expression) (h : EachNumber.expression P e) :
    (n : Nat) → EachNumber.expression P (negated n e)
  | 0 => h
  | n + 1 => eachNumber_negated P e h n

/-- Each sign adds a variant and a record. -/
theorem depth_negated (e : Expression) (n : Nat) :
    (Printer.expression (negated n e)).depth = (Printer.expression e).depth + 2 * n := by
  induction n with
  | zero => rfl
  | succ n ih =>
    rw [negated, Printer.expression, Printer.variant, Spelling.depth_variant]
    simp only [Json.record, List.map_cons, List.map_nil, Json.ofString, Json.depth,
      Json.depthMembers, ih]
    omega

/-- There is no number in the tree, and its printed form is refused all the same. With one sign less
    it is read. -/
theorem printed_negation_refused :
    EachNumber.expression (fun x => Number.isFinite x = true) (negated 64 .thisValue) ∧
      Expression.reader.text (some nestingLimit) (negated 64 .thisValue).print =
        .error .invalid ∧
      Expression.reader.text (some nestingLimit) (negated 63 .thisValue).print =
        .ok (negated 63 .thisValue) := by
  have numbers (P : Float → Prop) (n : Nat) : EachNumber.expression P (negated n .thisValue) :=
    eachNumber_negated P .thisValue trivial n
  have depth (n : Nat) : (Printer.expression (negated n .thisValue)).depth = 2 * n :=
    (depth_negated .thisValue n).trans (Nat.zero_add _)
  refine ⟨numbers _ 64, ?_, ?_⟩
  · rw [Expression.text_print (numbers _ 64), depth]
    rfl
  · rw [Expression.text_print (numbers _ 63), depth]
    rfl

end StackScript
