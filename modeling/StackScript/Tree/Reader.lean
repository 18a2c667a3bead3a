import StackScript.Json.Reader
import StackScript.Tree.Basic

/-!
# Reading trees

The written form of a tree is a JSON value: each kind of expression or statement is a variant, and
its parts are the fields of a record. A name is a record with the one field `name`, and so is a
block with the field `body`.

Readers of expressions and statements take a bound on the height of the tree. A value's depth is
such a bound, since each level of the tree opens at least one object.
-/

namespace StackScript.Reader

/-- Reads a literal. -/
def literal : Reader Literal :=
  variant fun
    | "Number" => some (.data (map .number number))
    | "String" => some (.data (map .string string))
    | "RegExp" => fields (field "pattern" string <| field "flags" string .nil)
        fun (pattern, flags, _) => .regExp pattern flags
    | "Boolean" => some (.data (map .boolean bool))
    | "Null" => some (.bare .null)
    | "Undefined" => some (.bare .undefined)
    | _ => none

/-- Reads a name. -/
def identifier : Reader String :=
  map (·.1) (record (field "name" string .nil))

/-- Reads a key. -/
def propertyKey : Reader PropertyKey :=
  variant fun
    | "Identifier" => some (.data (map .name identifier))
    | "String" => some (.data (map .string string))
    | "Number" => some (.data (map .number number))
    | _ => none

section

variable {ε σ : Type}

/-- Reads a property of an object literal. -/
def property (value : Reader ε) : Reader (Property ε) :=
  map (fun (key, value, _) => ⟨key, value⟩)
    (record (field "key" propertyKey <| field "value" value .nil))

/-- The property of a member access: a name, or a computed key. -/
def memberKey (value : Reader ε) : Reader (String ⊕ ε) :=
  variant fun
    | "Identifier" => some (.data (map .inl identifier))
    | "Expression" => some (.data (map .inr value))
    | _ => none

/-- Reads a declared name. -/
def declarator (value : Reader ε) : Reader (Declarator ε) :=
  map (fun (name, init, _) => ⟨name, init⟩)
    (record (field "id" identifier <| optionalField "init" value .nil))

/-- Reads a declaration. -/
def declarators (value : Reader ε) : Reader (List (Declarator ε)) :=
  map (·.1) (record (field "declarations" (list (declarator value)) .nil))

/-- Reads what stands first in the head of a loop. -/
def loopHead (value : Reader ε) : Reader (LoopHead ε) :=
  variant fun
    | "Declaration" => some (.data (map .declaration (declarators value)))
    | "Expression" => some (.data (map .expression value))
    | _ => none

/-- Reads a block. -/
def block (statement : Reader σ) : Reader (List σ) :=
  map (·.1) (record (field "body" (list statement) .nil))

/-- Reads a case of a switch. -/
def clause (value : Reader ε) (statement : Reader σ) : Reader (Clause ε σ) :=
  map (fun (test, body, _) => ⟨test, body⟩)
    (record (optionalField "test" value <| field "consequent" (list statement) .nil))

/-- Reads a handler. -/
def handler (statement : Reader σ) : Reader (Handler σ) :=
  map (fun (param, body, _) => ⟨param, body⟩)
    (record (field "param" identifier <| field "body" (block statement) .nil))

/-- The fields of a function literal. -/
def functionFields (statement : Reader σ) : Fields [Option String, List String, List σ] :=
  optionalField "id" identifier <| field "params" (list identifier) <|
    field "body" (list statement) .nil

end

mutual

/-- Reads an expression of height at most `height`. -/
def expression : (height : Nat) → Reader Expression
  | 0 => fun _ _ => .error .invalid
  | height + 1 => variant fun
    | "Literal" => some (.data (map .literal literal))
    | "Identifier" => some (.data (map .name identifier))
    | "This" => some (.bare .thisValue)
    | "Function" => fields (functionFields (statement height))
        fun (name, params, body, _) => .function name params body
    | "Array" => fields (field "elements" (list (optional (expression height))) .nil)
        fun (elements, _) => .array elements
    | "Object" => fields (field "properties" (list (property (expression height))) .nil)
        fun (properties, _) => .object properties
    | "Member" => fields
        (field "object" (expression height) <|
          field "property" (memberKey (expression height)) .nil)
        fun
          | (object, .inl name, _) => .member object name
          | (object, .inr key, _) => .index object key
    | "Call" => fields
        (field "callee" (expression height) <|
          field "arguments" (list (expression height)) .nil)
        fun (callee, arguments, _) => .call callee arguments
    | "New" => fields
        (field "callee" (expression height) <|
          field "arguments" (list (expression height)) .nil)
        fun (callee, arguments, _) => .construct callee arguments
    | "Unary" => fields
        (field "operator" (names UnaryOperator.ofName?) <|
          field "argument" (expression height) .nil)
        fun (operator, argument, _) => .unary operator argument
    | "Update" => fields
        (field "operator" (names UpdateOperator.ofName?) <|
          field "argument" (expression height) <| field "prefix" bool .nil)
        fun (operator, argument, before, _) => .update operator argument before
    | "Binary" => fields
        (field "operator" (names BinaryOperator.ofName?) <|
          field "left" (expression height) <| field "right" (expression height) .nil)
        fun (operator, left, right, _) => .binary operator left right
    | "Logical" => fields
        (field "operator" (names LogicalOperator.ofName?) <|
          field "left" (expression height) <| field "right" (expression height) .nil)
        fun (operator, left, right, _) => .logical operator left right
    | "Assignment" => fields
        (field "operator" (names AssignmentOperator.ofName?) <|
          field "left" (expression height) <| field "right" (expression height) .nil)
        fun (operator, target, value, _) => .assignment operator target value
    | "Conditional" => fields
        (field "test" (expression height) <| field "consequent" (expression height) <|
          field "alternate" (expression height) .nil)
        fun (test, consequent, alternate, _) => .conditional test consequent alternate
    | "Sequence" => fields (field "expressions" (list (expression height)) .nil)
        fun (expressions, _) => .sequence expressions
    | _ => none

/-- Reads a statement of height at most `height`. -/
def statement : (height : Nat) → Reader Statement
  | 0 => fun _ _ => .error .invalid
  | height + 1 => variant fun
    | "Block" => some (.data (map .block (block (statement height))))
    | "Expression" => fields (field "expression" (expression height) .nil)
        fun (value, _) => .expression value
    | "VariableDeclaration" => some (.data (map .declaration (declarators (expression height))))
    | "If" => fields
        (field "test" (expression height) <| field "consequent" (statement height) <|
          optionalField "alternate" (statement height) .nil)
        fun (test, consequent, alternate, _) => .ifElse test consequent alternate
    | "While" => fields
        (field "test" (expression height) <| field "body" (statement height) .nil)
        fun (test, body, _) => .whileLoop test body
    | "DoWhile" => fields
        (field "body" (statement height) <| field "test" (expression height) .nil)
        fun (body, test, _) => .doWhile body test
    | "For" => fields
        (optionalField "init" (loopHead (expression height)) <|
          optionalField "test" (expression height) <|
          optionalField "update" (expression height) <| field "body" (statement height) .nil)
        fun (init, test, update, body, _) => .forLoop init test update body
    | "Empty" => some (.bare .empty)
    | "ForIn" => fields
        (field "left" (loopHead (expression height)) <| field "right" (expression height) <|
          field "body" (statement height) .nil)
        fun (head, object, body, _) => .forIn head object body
    | "Return" => fields (optionalField "argument" (expression height) .nil)
        fun (value, _) => .ret value
    | "Break" => some (.data (map .breakTo (optional identifier)))
    | "Continue" => some (.data (map .continueTo (optional identifier)))
    | "Throw" => fields (field "argument" (expression height) .nil)
        fun (value, _) => .throw value
    | "Try" => fields
        (field "block" (block (statement height)) <|
          optionalField "handler" (handler (statement height)) <|
          optionalField "finalizer" (block (statement height)) .nil)
        fun (body, handler, finalizer, _) => .tryCatch body handler finalizer
    | "Switch" => fields
        (field "discriminant" (expression height) <|
          field "cases" (list (clause (expression height) (statement height))) .nil)
        fun (subject, clauses, _) => .switch subject clauses
    | "With" => fields
        (field "object" (expression height) <| field "body" (statement height) .nil)
        fun (object, body, _) => .withObject object body
    | "Labeled" => fields
        (field "label" identifier <| field "body" (statement height) .nil)
        fun (label, body, _) => .labeled label body
    | "FunctionDeclaration" => fields
        (field "id" identifier <| field "params" (list identifier) <|
          field "body" (list (statement height)) .nil)
        fun (name, params, body, _) => .function name params body
    | _ => none

end

/-- Reads a tree whose height is bounded by the depth of the value. -/
def bounded {α : Type} (read : Nat → Reader α) : Reader α :=
  fun room value => read (value.depth + 1) room value

end StackScript.Reader

namespace StackScript

/-- Reads an expression. -/
def Expression.reader : Reader Expression :=
  Reader.bounded Reader.expression

/-- Reads a statement. -/
def Statement.reader : Reader Statement :=
  Reader.bounded Reader.statement

/-- Reads a program. -/
def Program.reader : Reader Program :=
  Reader.map Program.mk (Reader.block Statement.reader)

/-- Reads a function literal. -/
def Function.reader : Reader Function :=
  Reader.map (fun (name, params, body, _) => ⟨name, params, body⟩)
    (Reader.record (Reader.functionFields Statement.reader))

/-- Reads an assignment operator. -/
def AssignmentOperator.reader : Reader AssignmentOperator :=
  Reader.names AssignmentOperator.ofName?

end StackScript
