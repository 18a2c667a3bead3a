import StackScript.Json.Token
import StackScript.Number.Format
import StackScript.Tree.Basic

/-!
# Printing trees

The written form of a tree, with every field in the order in which it is declared and null for an
absent part.
-/

namespace StackScript.Printer

/-- A variant with data. -/
def variant (name : String) (payload : Json) : Json :=
  .record [(name, payload)]

/-- A number that is not finite has no written form. -/
def number (x : Float) : Json :=
  if Number.isFinite x then .number (Number.Style.tree.text x) else .null

/-- A name is a record of its text. -/
def identifier (name : String) : Json :=
  .record [("name", .ofString name)]

/-- A name that may be missing. -/
def identifier? : Option String → Json
  | some name => identifier name
  | none => .null

/-- A list of names. -/
def identifiers (names : List String) : Json :=
  .array (names.map identifier)

/-- A literal is a variant by its kind. -/
def literal : Literal → Json
  | .number value => variant "Number" (number value)
  | .string text => variant "String" (.ofString text)
  | .regExp pattern flags =>
    variant "RegExp" (.record [("pattern", .ofString pattern), ("flags", .ofString flags)])
  | .boolean value => variant "Boolean" (.bool value)
  | .null => .ofString "Null"
  | .undefined => .ofString "Undefined"

/-- A key is a variant by its kind. -/
def propertyKey : PropertyKey → Json
  | .name text => variant "Identifier" (identifier text)
  | .string text => variant "String" (.ofString text)
  | .number value => variant "Number" (number value)

mutual

/-- An expression is a variant by its kind, with a record of its parts. -/
def expression : Expression → Json
  | .literal value => variant "Literal" (literal value)
  | .name text => variant "Identifier" (identifier text)
  | .thisValue => .ofString "This"
  | .function name params body => variant "Function" (.record [
      ("id", identifier? name), ("params", identifiers params), ("body", .array (statements body))])
  | .array elems => variant "Array" (.record [("elements", .array (elements elems))])
  | .object props => variant "Object" (.record [("properties", .array (properties props))])
  | .member object name => variant "Member" (.record [
      ("object", expression object), ("property", variant "Identifier" (identifier name))])
  | .index object key => variant "Member" (.record [
      ("object", expression object), ("property", variant "Expression" (expression key))])
  | .call callee arguments => variant "Call" (.record [
      ("callee", expression callee), ("arguments", .array (expressions arguments))])
  | .construct callee arguments => variant "New" (.record [
      ("callee", expression callee), ("arguments", .array (expressions arguments))])
  | .unary operator argument => variant "Unary" (.record [
      ("operator", .ofString operator.name), ("argument", expression argument)])
  | .update operator argument before => variant "Update" (.record [
      ("operator", .ofString operator.name), ("argument", expression argument),
      ("prefix", .bool before)])
  | .binary operator left right => variant "Binary" (.record [
      ("operator", .ofString operator.name), ("left", expression left),
      ("right", expression right)])
  | .logical operator left right => variant "Logical" (.record [
      ("operator", .ofString operator.name), ("left", expression left),
      ("right", expression right)])
  | .assignment operator target value => variant "Assignment" (.record [
      ("operator", .ofString operator.name), ("left", expression target),
      ("right", expression value)])
  | .conditional test consequent alternate => variant "Conditional" (.record [
      ("test", expression test), ("consequent", expression consequent),
      ("alternate", expression alternate)])
  | .sequence items => variant "Sequence" (.record [("expressions", .array (expressions items))])

/-- An expression that may be missing. -/
def expression? : Option Expression → Json
  | some value => expression value
  | none => .null

/-- Expressions in their order. -/
def expressions : List Expression → List Json
  | [] => []
  | value :: rest => expression value :: expressions rest

/-- The elements of an array literal; a hole is null. -/
def elements : List (Option Expression) → List Json
  | [] => []
  | some value :: rest => expression value :: elements rest
  | none :: rest => .null :: elements rest

/-- The properties of an object literal. -/
def properties : List (Property Expression) → List Json
  | [] => []
  | ⟨key, value⟩ :: rest =>
    .record [("key", propertyKey key), ("value", expression value)] :: properties rest

/-- Declared names with their first values. -/
def declarators : List (Declarator Expression) → List Json
  | [] => []
  | ⟨name, init⟩ :: rest =>
    .record [("id", identifier name), ("init", expression? init)] :: declarators rest

/-- What stands first in the head of a loop. -/
def loopHead : LoopHead Expression → Json
  | .declaration decls =>
    variant "Declaration" (.record [("declarations", .array (declarators decls))])
  | .expression value => variant "Expression" (expression value)

/-- The same where it may be missing. -/
def loopHead? : Option (LoopHead Expression) → Json
  | some head => loopHead head
  | none => .null

/-- A statement is a variant by its kind, with a record of its parts. -/
def statement : Statement → Json
  | .block body => variant "Block" (.record [("body", .array (statements body))])
  | .expression value => variant "Expression" (.record [("expression", expression value)])
  | .declaration decls =>
    variant "VariableDeclaration" (.record [("declarations", .array (declarators decls))])
  | .ifElse test consequent alternate => variant "If" (.record [
      ("test", expression test), ("consequent", statement consequent),
      ("alternate", statement? alternate)])
  | .whileLoop test body => variant "While" (.record [
      ("test", expression test), ("body", statement body)])
  | .doWhile body test => variant "DoWhile" (.record [
      ("body", statement body), ("test", expression test)])
  | .forLoop init test update body => variant "For" (.record [
      ("init", loopHead? init), ("test", expression? test), ("update", expression? update),
      ("body", statement body)])
  | .empty => .ofString "Empty"
  | .forIn head object body => variant "ForIn" (.record [
      ("left", loopHead head), ("right", expression object), ("body", statement body)])
  | .ret value => variant "Return" (.record [("argument", expression? value)])
  | .breakTo label => variant "Break" (identifier? label)
  | .continueTo label => variant "Continue" (identifier? label)
  | .throw value => variant "Throw" (.record [("argument", expression value)])
  | .tryCatch body handler finalizer => variant "Try" (.record [
      ("block", .record [("body", .array (statements body))]),
      ("handler", handler? handler), ("finalizer", block? finalizer)])
  | .switch subject cases => variant "Switch" (.record [
      ("discriminant", expression subject), ("cases", .array (clauses cases))])
  | .withObject object body => variant "With" (.record [
      ("object", expression object), ("body", statement body)])
  | .labeled label body => variant "Labeled" (.record [
      ("label", identifier label), ("body", statement body)])
  | .function name params body => variant "FunctionDeclaration" (.record [
      ("id", identifier name), ("params", identifiers params), ("body", .array (statements body))])

/-- A statement that may be missing. -/
def statement? : Option Statement → Json
  | some value => statement value
  | none => .null

/-- Statements in their order. -/
def statements : List Statement → List Json
  | [] => []
  | value :: rest => statement value :: statements rest

/-- A handler that may be missing. -/
def handler? : Option (Handler Statement) → Json
  | some ⟨param, body⟩ => .record [
      ("param", identifier param), ("body", .record [("body", .array (statements body))])]
  | none => .null

/-- A block that may be missing. -/
def block? : Option (List Statement) → Json
  | some body => .record [("body", .array (statements body))]
  | none => .null

/-- The cases of a switch. -/
def clauses : List (Clause Expression Statement) → List Json
  | [] => []
  | ⟨test, body⟩ :: rest =>
    .record [("test", expression? test), ("consequent", .array (statements body))] :: clauses rest

end

end StackScript.Printer

namespace StackScript

/-- The text of an expression. -/
def Expression.print (e : Expression) : String :=
  (Printer.expression e).render

/-- The text of a statement. -/
def Statement.print (s : Statement) : String :=
  (Printer.statement s).render

/-- The text of a program. -/
def Program.print (p : Program) : String :=
  (Json.record [("body", .array (Printer.statements p.body))]).render

/-- The text of a function literal. -/
def Function.print (f : Function) : String :=
  (Json.record [("id", Printer.identifier? f.name), ("params", Printer.identifiers f.params),
    ("body", .array (Printer.statements f.body))]).render

/-- The text of an operator. -/
def AssignmentOperator.print (operator : AssignmentOperator) : String :=
  (Json.ofString operator.name).render

end StackScript
