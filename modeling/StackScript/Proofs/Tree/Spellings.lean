import StackScript.Proofs.Json.Spellings
import StackScript.Tree.Basic

/-!
# Spellings of trees

What a tree may be written as: each part with its fields in any order, or with any of the other
freedoms that a record and a variant have. A number has only the one text that is printed for it, so
that what is known of a spelling depends on the numbers in the tree.
-/

namespace StackScript

/-! ## The numbers of a tree -/

namespace EachNumber

variable (P : Float → Prop)

/-- A literal that is a number has the property. -/
def literal : Literal → Prop
  | .number value => P value
  | _ => True

/-- A key that is a number has the property. -/
def propertyKey : PropertyKey → Prop
  | .number value => P value
  | _ => True

mutual

/-- Every number in the tree has the property, whether it is a literal or the key of a property. -/
def expression : Expression → Prop
  | .literal value => literal P value
  | .name _ => True
  | .thisValue => True
  | .function _ _ body => statements body
  | .array elems => elements elems
  | .object props => properties props
  | .member object _ => expression object
  | .index object key => expression object ∧ expression key
  | .call callee arguments => expression callee ∧ expressions arguments
  | .construct callee arguments => expression callee ∧ expressions arguments
  | .unary _ argument => expression argument
  | .update _ argument _ => expression argument
  | .binary _ left right => expression left ∧ expression right
  | .logical _ left right => expression left ∧ expression right
  | .assignment _ target value => expression target ∧ expression value
  | .conditional test consequent alternate =>
    expression test ∧ expression consequent ∧ expression alternate
  | .sequence items => expressions items

/-- The numbers of an expression that may be missing. -/
def expression? : Option Expression → Prop
  | some value => expression value
  | none => True

/-- The numbers of all these expressions. -/
def expressions : List Expression → Prop
  | [] => True
  | value :: rest => expression value ∧ expressions rest

/-- The numbers of all elements of an array literal. -/
def elements : List (Option Expression) → Prop
  | [] => True
  | some value :: rest => expression value ∧ elements rest
  | none :: rest => elements rest

/-- The numbers of all properties of an object literal, keys and values. -/
def properties : List (Property Expression) → Prop
  | [] => True
  | ⟨key, value⟩ :: rest => propertyKey P key ∧ expression value ∧ properties rest

/-- The numbers of all initial values. -/
def declarators : List (Declarator Expression) → Prop
  | [] => True
  | ⟨_, init⟩ :: rest => expression? init ∧ declarators rest

/-- The numbers of what begins a `for`. -/
def loopHead : LoopHead Expression → Prop
  | .declaration decls => declarators decls
  | .expression value => expression value

/-- The numbers of what begins a `for`, if it is there. -/
def loopHead? : Option (LoopHead Expression) → Prop
  | some head => loopHead head
  | none => True

/-- Every number in the tree has the property. -/
def statement : Statement → Prop
  | .block body => statements body
  | .expression value => expression value
  | .declaration decls => declarators decls
  | .ifElse test consequent alternate =>
    expression test ∧ statement consequent ∧ statement? alternate
  | .whileLoop test body => expression test ∧ statement body
  | .doWhile body test => statement body ∧ expression test
  | .forLoop init test update body =>
    loopHead? init ∧ expression? test ∧ expression? update ∧ statement body
  | .empty => True
  | .forIn head object body => loopHead head ∧ expression object ∧ statement body
  | .ret value => expression? value
  | .breakTo _ => True
  | .continueTo _ => True
  | .throw value => expression value
  | .tryCatch body handler finalizer => statements body ∧ handler? handler ∧ block? finalizer
  | .switch subject cases => expression subject ∧ clauses cases
  | .withObject object body => expression object ∧ statement body
  | .labeled _ body => statement body
  | .function _ _ body => statements body

/-- The numbers of a statement that may be missing. -/
def statement? : Option Statement → Prop
  | some value => statement value
  | none => True

/-- The numbers of all these statements. -/
def statements : List Statement → Prop
  | [] => True
  | value :: rest => statement value ∧ statements rest

/-- The numbers of a handler, if there is one. -/
def handler? : Option (Handler Statement) → Prop
  | some ⟨_, body⟩ => statements body
  | none => True

/-- The numbers of a block, if there is one. -/
def block? : Option (List Statement) → Prop
  | some body => statements body
  | none => True

/-- The numbers of all clauses of a `switch`. -/
def clauses : List (Clause Expression Statement) → Prop
  | [] => True
  | ⟨test, body⟩ :: rest => expression? test ∧ statements body ∧ clauses rest

end

end EachNumber

/-! ## What trees are written as -/

namespace Spelling

/-- A name is a record. -/
def identifier (name : String) : Spelling :=
  Record [field "name" (text name)]

/-- A name that may be missing, and is null then. -/
def identifier? : Option String → Spelling
  | some name => identifier name
  | none => null

/-- A list of names. -/
def identifiers (names : List String) : Spelling :=
  array (names.map identifier)

/-- What a literal may be written as. -/
def literal : Literal → Spelling
  | .number value => Tagged "Number" (number value)
  | .string content => Tagged "String" (text content)
  | .regExp pattern flags =>
    Tagged "RegExp" (Record [field "pattern" (text pattern), field "flags" (text flags)])
  | .boolean value => Tagged "Boolean" (bool value)
  | .null => Bare "Null"
  | .undefined => Bare "Undefined"

/-- What the key of a property may be written as. -/
def propertyKey : PropertyKey → Spelling
  | .name content => Tagged "Identifier" (identifier content)
  | .string content => Tagged "String" (text content)
  | .number value => Tagged "Number" (number value)

mutual

/-- What an expression may be written as. -/
def expression : Expression → Spelling
  | .literal value => Tagged "Literal" (literal value)
  | .name content => Tagged "Identifier" (identifier content)
  | .thisValue => Bare "This"
  | .function name params body => Tagged "Function" (Record [
      optionalField "id" (identifier? name), field "params" (identifiers params),
      field "body" (array (statements body))])
  | .array elems => Tagged "Array" (Record [field "elements" (array (elements elems))])
  | .object props => Tagged "Object" (Record [field "properties" (array (properties props))])
  | .member object name => Tagged "Member" (Record [
      field "object" (expression object), field "property" (Tagged "Identifier" (identifier name))])
  | .index object key => Tagged "Member" (Record [
      field "object" (expression object), field "property" (Tagged "Expression" (expression key))])
  | .call callee arguments => Tagged "Call" (Record [
      field "callee" (expression callee), field "arguments" (array (expressions arguments))])
  | .construct callee arguments => Tagged "New" (Record [
      field "callee" (expression callee), field "arguments" (array (expressions arguments))])
  | .unary operator argument => Tagged "Unary" (Record [
      field "operator" (Bare operator.name), field "argument" (expression argument)])
  | .update operator argument before => Tagged "Update" (Record [
      field "operator" (Bare operator.name), field "argument" (expression argument),
      field "prefix" (bool before)])
  | .binary operator left right => Tagged "Binary" (Record [
      field "operator" (Bare operator.name), field "left" (expression left),
      field "right" (expression right)])
  | .logical operator left right => Tagged "Logical" (Record [
      field "operator" (Bare operator.name), field "left" (expression left),
      field "right" (expression right)])
  | .assignment operator target value => Tagged "Assignment" (Record [
      field "operator" (Bare operator.name), field "left" (expression target),
      field "right" (expression value)])
  | .conditional test consequent alternate => Tagged "Conditional" (Record [
      field "test" (expression test), field "consequent" (expression consequent),
      field "alternate" (expression alternate)])
  | .sequence items => Tagged "Sequence" (Record [field "expressions" (array (expressions items))])

/-- An expression that may be missing, and is null then. -/
def expression? : Option Expression → Spelling
  | some value => expression value
  | none => null

/-- What each of the expressions may be written as. -/
def expressions : List Expression → List Spelling
  | [] => []
  | value :: rest => expression value :: expressions rest

/-- The elements of an array literal; a hole is null. -/
def elements : List (Option Expression) → List Spelling
  | [] => []
  | some value :: rest => expression value :: elements rest
  | none :: rest => null :: elements rest

/-- What each property of an object literal may be written as. -/
def properties : List (Property Expression) → List Spelling
  | [] => []
  | ⟨key, value⟩ :: rest =>
    Record [field "key" (propertyKey key), field "value" (expression value)] :: properties rest

/-- What each declaration of a name may be written as. -/
def declarators : List (Declarator Expression) → List Spelling
  | [] => []
  | ⟨name, init⟩ :: rest =>
    Record [field "id" (identifier name), optionalField "init" (expression? init)] ::
      declarators rest

/-- What begins a `for` or a `for`-`in`. -/
def loopHead : LoopHead Expression → Spelling
  | .declaration decls =>
    Tagged "Declaration" (Record [field "declarations" (array (declarators decls))])
  | .expression value => Tagged "Expression" (expression value)

/-- What begins a `for`; it may be missing, and is null then. -/
def loopHead? : Option (LoopHead Expression) → Spelling
  | some head => loopHead head
  | none => null

/-- What a statement may be written as. -/
def statement : Statement → Spelling
  | .block body => Tagged "Block" (Record [field "body" (array (statements body))])
  | .expression value => Tagged "Expression" (Record [field "expression" (expression value)])
  | .declaration decls =>
    Tagged "VariableDeclaration" (Record [field "declarations" (array (declarators decls))])
  | .ifElse test consequent alternate => Tagged "If" (Record [
      field "test" (expression test), field "consequent" (statement consequent),
      optionalField "alternate" (statement? alternate)])
  | .whileLoop test body => Tagged "While" (Record [
      field "test" (expression test), field "body" (statement body)])
  | .doWhile body test => Tagged "DoWhile" (Record [
      field "body" (statement body), field "test" (expression test)])
  | .forLoop init test update body => Tagged "For" (Record [
      optionalField "init" (loopHead? init), optionalField "test" (expression? test),
      optionalField "update" (expression? update), field "body" (statement body)])
  | .empty => Bare "Empty"
  | .forIn head object body => Tagged "ForIn" (Record [
      field "left" (loopHead head), field "right" (expression object),
      field "body" (statement body)])
  | .ret value => Tagged "Return" (Record [optionalField "argument" (expression? value)])
  | .breakTo label => Tagged "Break" (identifier? label)
  | .continueTo label => Tagged "Continue" (identifier? label)
  | .throw value => Tagged "Throw" (Record [field "argument" (expression value)])
  | .tryCatch body handler finalizer => Tagged "Try" (Record [
      field "block" (Record [field "body" (array (statements body))]),
      optionalField "handler" (handler? handler), optionalField "finalizer" (block? finalizer)])
  | .switch subject cases => Tagged "Switch" (Record [
      field "discriminant" (expression subject), field "cases" (array (clauses cases))])
  | .withObject object body => Tagged "With" (Record [
      field "object" (expression object), field "body" (statement body)])
  | .labeled label body => Tagged "Labeled" (Record [
      field "label" (identifier label), field "body" (statement body)])
  | .function name params body => Tagged "FunctionDeclaration" (Record [
      field "id" (identifier name), field "params" (identifiers params),
      field "body" (array (statements body))])

/-- A statement that may be missing, and is null then. -/
def statement? : Option Statement → Spelling
  | some value => statement value
  | none => null

/-- What each of the statements may be written as. -/
def statements : List Statement → List Spelling
  | [] => []
  | value :: rest => statement value :: statements rest

/-- A handler that may be missing, and is null then. -/
def handler? : Option (Handler Statement) → Spelling
  | some ⟨param, body⟩ => Record [
      field "param" (identifier param),
      field "body" (Record [field "body" (array (statements body))])]
  | none => null

/-- A block that may be missing, and is null then. -/
def block? : Option (List Statement) → Spelling
  | some body => Record [field "body" (array (statements body))]
  | none => null

/-- What each clause of a `switch` may be written as. -/
def clauses : List (Clause Expression Statement) → List Spelling
  | [] => []
  | ⟨test, body⟩ :: rest =>
    Record [optionalField "test" (expression? test),
      field "consequent" (array (statements body))] :: clauses rest

end

/-- What a program may be written as. -/
def program (p : Program) : Spelling :=
  Record [field "body" (array (statements p.body))]

end Spelling

end StackScript
