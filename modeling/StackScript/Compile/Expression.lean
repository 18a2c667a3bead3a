import StackScript.Compile.Assembler
import StackScript.Number.Format

/-!
# Code for expressions

The code of an expression leaves its value on the stack. The code of a reference leaves the place
instead, for operations that read or write through it. What is said of an assembler here holds for
compiling when the assembler is the direct one.
-/

namespace StackScript

open Compile

/-- The name of the property that a key stands for. -/
def PropertyKey.text : PropertyKey → String
  | .name text => text
  | .string text => text
  | .number value =>
    match Number.view value with
    | .infinite negative => if negative then "-Infinity" else "Infinity"
    | _ => if Number.isZero value then "0" else Number.Style.listing.text value

/-- The operation of a unary operator on a value. -/
def UnaryOperator.op : UnaryOperator → Op
  | .minus => .neg
  | .plus => .plus
  | .not => .not
  | .bitNot => .bitNot
  | .typeof => .typeOf
  | .void => .void
  | .delete => .delete

/-- The operation of an update on a reference. -/
def UpdateOperator.op : UpdateOperator → (before : Bool) → Op
  | .increment, true => .preInc
  | .decrement, true => .preDec
  | .increment, false => .postInc
  | .decrement, false => .postDec

/-- The jump that leaves out the right side. -/
def LogicalOperator.op : LogicalOperator → Op
  | .and => .jumpIfFalseOrPop
  | .or => .jumpIfTrueOrPop

section Lowering

variable {ε σ : Type} (s : Assembler ε σ)

/-- The code of a literal. Its text is copied. -/
def Literal.lower : Literal → EStateM ε σ Unit
  | .number value => s.emit { op := .pushNumber, operand := some (.number value) }
  | .string text => do
    let text ← s.copy text
    s.emit { op := .pushString, operand := some (.text text) }
  | .regExp pattern flags => do
    let pattern ← s.copy pattern
    let flags ← s.copy flags
    s.emit { op := .pushRegExp, operand := some (.text pattern), extra := some (.text flags) }
  | .boolean true => s.emitOp .pushTrue
  | .boolean false => s.emitOp .pushFalse
  | .null => s.emitOp .pushNull
  | .undefined => s.emitOp .pushUndefined

mutual

/-- The code of an expression. -/
def Expression.lower : Expression → EStateM ε σ Unit
  | .literal value => value.lower s
  | .name text => s.emitName .loadName text
  | .thisValue => s.emitOp .pushThis
  | .function name params body =>
    s.emit { op := .pushFunction, operand := some (.function ⟨name, params, body⟩) }
  | .array elements => do
    lowerElements elements
    s.emitCount .newArray elements.length
  | .object properties => do
    s.emitOp .newObject
    lowerProperties properties
  | .member object name => do
    object.lower
    s.emitName .getMember name
  | .index object key => do
    object.lower
    key.lower
    s.emitOp .getIndex
  | .call callee arguments => do
    if callee.isReference then callee.lowerReference false else callee.lower
    lowerExpressions arguments
    s.emitCount (if callee.isReference then .callRef else .call) arguments.length
  | .construct callee arguments => do
    if callee.isReference then callee.lowerReference false else callee.lower
    lowerExpressions arguments
    s.emitCount (if callee.isReference then .constructRef else .construct) arguments.length
  | .unary .delete argument =>
    if argument.isReference then do
      argument.lowerReference false
      s.emitOp .delete
    else do
      argument.lower
      s.misuse .invalidDelete
  | .unary .typeof argument =>
    -- Reading through a reference lets the type of a name that is not declared be asked for.
    if argument.isReference then do
      argument.lowerReference false
      s.emitOp .typeOfRef
    else do
      argument.lower
      s.emitOp .typeOf
  | .unary operator argument => do
    argument.lower
    s.emitOp operator.op
  | .update operator argument before =>
    if argument.isReference then do
      argument.lowerReference false
      s.emitOp (operator.op before)
    else do
      argument.lower
      s.misuse .illegalAssignment
  | .binary operator left right => do
    left.lower
    right.lower
    s.emitOp operator.op
  | .logical operator left right => do
    left.lower
    let skip ← s.reserveJump operator.op
    right.lower
    s.patchJump skip
  | .assignment operator target value =>
    if target.isReference then do
      target.lowerReference true
      match operator.binary? with
      | none => value.lower
      | some binary => do
        s.emitOp .deref
        value.lower
        s.emitOp binary.op
      s.emitOp .assign
    else do
      target.lower
      s.misuse .illegalAssignment
  | .conditional test consequent alternate => do
    test.lower
    let toAlternate ← s.reserveJump .jumpIfFalseOrPop
    consequent.lower
    let toEnd ← s.reserveJump .jump
    -- The jump to the alternate leaves the tested value.
    s.patchJump toAlternate
    s.emitOp .pop
    alternate.lower
    s.patchJump toEnd
  | .sequence expressions => lowerSequence expressions

/-- The code of a reference; there is none for other expressions. A name that is not declared comes
    into being when it is assigned to. -/
def Expression.lowerReference : Expression → (create : Bool) → EStateM ε σ Unit
  | .name text, create => s.emitName .resolveName text (some (.flag create))
  | .member object name, _ => do
    object.lower
    s.emitName .pushName name
    s.emitOp .resolveIndex
  | .index object key, _ => do
    object.lower
    key.lower
    s.emitOp .resolveIndex
  | _, _ => return

/-- All values, one above the other. -/
def lowerExpressions : List Expression → EStateM ε σ Unit
  | [] => return
  | value :: rest => do
    value.lower
    lowerExpressions rest

/-- The value of the last expression; the others are dropped. -/
def lowerSequence : List Expression → EStateM ε σ Unit
  | [] => s.emitOp .pushUndefined
  | [value] => value.lower
  | value :: next :: rest => do
    value.lower
    s.emitOp .pop
    lowerSequence (next :: rest)

/-- All elements, one above the other; a hole is undefined. -/
def lowerElements : List (Option Expression) → EStateM ε σ Unit
  | [] => return
  | some value :: rest => do
    value.lower
    lowerElements rest
  | none :: rest => do
    s.emitOp .pushUndefined
    lowerElements rest

/-- Sets each property of the object on the stack. -/
def lowerProperties : List (Property Expression) → EStateM ε σ Unit
  | [] => return
  | ⟨key, value⟩ :: rest => do
    value.lower
    s.emitName .setProperty key.text
    lowerProperties rest

end

end Lowering

/-! ## The code in a draft -/

/-- Compiles a literal. -/
abbrev Literal.compile (value : Literal) : Compile Unit :=
  value.lower .direct

/-- Compiles an expression. -/
abbrev Expression.compile (e : Expression) : Compile Unit :=
  e.lower .direct

/-- Compiles a reference. -/
abbrev Expression.compileReference (e : Expression) (create : Bool) : Compile Unit :=
  e.lowerReference .direct create

/-- Compiles values, one above the other. -/
abbrev compileExpressions (values : List Expression) : Compile Unit :=
  lowerExpressions .direct values

/-- Compiles expressions of which only the last value is kept. -/
abbrev compileSequence (values : List Expression) : Compile Unit :=
  lowerSequence .direct values

/-- Compiles the elements of an array. -/
abbrev compileElements (values : List (Option Expression)) : Compile Unit :=
  lowerElements .direct values

/-- Compiles the properties of an object. -/
abbrev compileProperties (properties : List (Property Expression)) : Compile Unit :=
  lowerProperties .direct properties

end StackScript
