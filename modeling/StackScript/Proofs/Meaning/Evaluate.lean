import StackScript.Machine.Run
import StackScript.Proofs.Unit.Entry

/-!
# Evaluating trees

What a tree means, without code: each part is evaluated by recursion on the tree, over the values
and the state of the machine. There is no stack, and there are no jumps. What the machine does not
do is a fault here as well.

A loop is given a number of rounds. A loop that takes more ends in the fault that stands for running
out of steps. No other part of a tree ends in that fault, so it tells a loop that was cut short from
one that ended.
-/

namespace StackScript

/-- Evaluation with the state of the machine, which can stop. -/
abbrev Evaluate := EStateM Stop Machine

namespace Evaluate

variable {α : Type}

/-- Breaks off. -/
def fault (f : Fault) : Evaluate α :=
  throw (.fault f)

/-- Ends with an outcome. -/
def finish (o : Outcome) : Evaluate α :=
  throw (.outcome o)

/-- Goes on with a result, or stops in a fault. -/
def lift : Except Fault α → Evaluate α
  | .ok a => pure a
  | .error f => fault f

/-- The value in a place. -/
def read (r : Reference) : Evaluate Value := do
  match (← get).read r with
  | .ok value => return value
  | .error stop => throw stop

/-- Sets the value in a place. -/
def write (r : Reference) (value : Value) : Evaluate Unit := do
  set (← lift ((← get).write r value))

/-- A property of a value. -/
def property (object : Value) (key : String) : Evaluate Value := do
  lift ((← get).property object key)

/-- Sets a property of an object. -/
def setProperty (id : Nat) (key : String) (value : Value) : Evaluate Unit := do
  set (← lift ((← get).setProperty id key value))

/-- A new object, which is known by its number. -/
def allocate (properties : Bindings) : Evaluate Nat := do
  let m ← get
  set (m.allocate properties)
  return m.objects.size

/-- Calls a value. -/
def call (callee : Value) (arguments : List Value) : Evaluate Value := do
  let (result, m) ← lift ((← get).call callee arguments)
  set m
  return result

/-- The place of a property. -/
def placeOf (object : Value) (key : String) : Evaluate Reference :=
  match object with
  | .object id => return .property id key
  | other => fault (.referenceOnValue other)

/-- The kind of the value in a place. A name without a value is undefined here. -/
def typeOf (r : Reference) : Evaluate Value := do
  match (← get).read r with
  | .ok value => return .string value.typeName
  | .error (.outcome _) => return .string Value.undefined.typeName
  | .error stop => throw stop

/-- The rounds of a loop that tests before each round. The last value is that of the last round. -/
def rounds (test body : Evaluate Value) : (fuel : Nat) → (last : Value) → Evaluate Value
  | 0, _ => fault .outOfSteps
  | fuel + 1, last => do
    if (← test).truthy then rounds test body fuel (← body) else return last

/-- The rounds of a loop that tests after each round. -/
def roundsFirst (body test : Evaluate Value) : (fuel : Nat) → Evaluate Value
  | 0 => fault .outOfSteps
  | fuel + 1 => do
    let last ← body
    if (← test).truthy then roundsFirst body test fuel else return last

/-- How evaluation ends, and the machine as it is then. -/
def ended (evaluation : Evaluate Value) (m : Machine) : Ended :=
  match evaluation m with
  | .ok value m => ⟨.outcome (.returned value), m⟩
  | .error stop m => ⟨stop, m⟩

end Evaluate

open Evaluate

/-- The value of a literal. -/
def Literal.eval : Literal → Evaluate Value
  | .number value => return .number value
  | .string text => return .string text
  | .regExp .. => fault (.unsupported .pushRegExp)
  | .boolean value => return .bool value
  | .null => return .null
  | .undefined => return .undefined

/-- What a binary operator makes of two values. The machine does not know the operators on bits,
    nor those that ask about objects, and for it the two kinds of equality are one. -/
def BinaryOperator.apply : BinaryOperator → (left right : Value) → Evaluate Value
  | .add, left, right => return left.add right
  | .subtract, left, right => return .number (left.toNumber - right.toNumber)
  | .multiply, left, right => return .number (left.toNumber * right.toNumber)
  | .divide, left, right => return .number (left.toNumber / right.toNumber)
  | .modulo, left, right => return .number (Number.remainder left.toNumber right.toNumber)
  | .equal, left, right | .strictEqual, left, right => return .bool (left.same right)
  | .notEqual, left, right | .strictNotEqual, left, right => return .bool !(left.same right)
  | .less, left, right => return .bool (left.toNumber < right.toNumber)
  | .lessEqual, left, right => return .bool (left.toNumber ≤ right.toNumber)
  | .greater, left, right => return .bool (right.toNumber < left.toNumber)
  | .greaterEqual, left, right => return .bool (right.toNumber ≤ left.toNumber)
  | .bitAnd, _, _ => fault (.unsupported .bitAnd)
  | .bitOr, _, _ => fault (.unsupported .bitOr)
  | .bitXor, _, _ => fault (.unsupported .bitXor)
  | .shiftLeft, _, _ => fault (.unsupported .shl)
  | .shiftRight, _, _ => fault (.unsupported .shr)
  | .shiftRightUnsigned, _, _ => fault (.unsupported .ushr)
  | .isIn, _, _ => fault (.unsupported .isIn)
  | .instanceOf, _, _ => fault (.unsupported .instanceOf)

/-- What a unary operator makes of a value. -/
def UnaryOperator.apply : UnaryOperator → Value → Evaluate Value
  | .minus, value => return .number (-value.toNumber)
  | .not, value => return .bool !value.truthy
  | .typeof, value => return .string value.typeName
  | .plus, _ => fault (.unsupported .plus)
  | .bitNot, _ => fault (.unsupported .bitNot)
  | .void, _ => fault (.unsupported .void)
  | .delete, _ => fault (.unsupported .delete)

/-- What an assignment makes of the old value and the new one before it stores the result. Plain
    assignment does not look at the old value. -/
def AssignmentOperator.combine? :
    AssignmentOperator → Option ((old new : Value) → Evaluate Value)
  | .assign => none
  | .add => some BinaryOperator.add.apply
  | .subtract => some BinaryOperator.subtract.apply
  | .multiply => some BinaryOperator.multiply.apply
  | .divide => some BinaryOperator.divide.apply
  | .modulo => some BinaryOperator.modulo.apply
  | .shiftLeft => some BinaryOperator.shiftLeft.apply
  | .shiftRight => some BinaryOperator.shiftRight.apply
  | .shiftRightUnsigned => some BinaryOperator.shiftRightUnsigned.apply
  | .bitAnd => some BinaryOperator.bitAnd.apply
  | .bitOr => some BinaryOperator.bitOr.apply
  | .bitXor => some BinaryOperator.bitXor.apply

/-- The number that an update adds. -/
def UpdateOperator.delta : UpdateOperator → Float
  | .increment => 1.0
  | .decrement => -1.0

/-- The left side decides the value, and the right side is left out. -/
def LogicalOperator.decides (operator : LogicalOperator) (left : Value) : Bool :=
  match operator with
  | .and => !left.truthy
  | .or => left.truthy

mutual

/-- The value of an expression. Its parts are evaluated from left to right. -/
def Expression.eval : Expression → Evaluate Value
  | .literal value => value.eval
  | .name text => read (.name text)
  | .thisValue => return .undefined
  | .function .. => fault (.unsupported .pushFunction)
  | .array elements => do
    let values ← evalElements elements
    return .object (← allocate (Machine.elements values))
  | .object properties => do
    -- The object is there before its values are evaluated.
    let id ← allocate []
    evalProperties id properties
    return .object id
  | .member object name => do
    property (← object.eval) name
  | .index object key => do
    let object ← object.eval
    let key ← key.eval
    property object key.toKey
  | .call callee arguments =>
    match callee.place? with
    | some place => do
      -- The place is found before the arguments, and read after them.
      let r ← place
      let arguments ← evalAll arguments
      call (← read r) arguments
    | none => do
      let callee ← callee.eval
      let arguments ← evalAll arguments
      call callee arguments
  | .construct callee arguments =>
    match callee.place? with
    | some place => do
      let _ ← place
      let _ ← evalAll arguments
      fault (.unsupported .constructRef)
    | none => do
      let _ ← callee.eval
      let _ ← evalAll arguments
      fault (.unsupported .construct)
  | .unary .delete argument =>
    match argument.place? with
    | some place => do
      let _ ← place
      fault (.unsupported .delete)
    | none => do
      let _ ← argument.eval
      finish (.threw .invalidDelete)
  | .unary .typeof argument =>
    match argument.place? with
    | some place => do
      typeOf (← place)
    | none => do
      UnaryOperator.typeof.apply (← argument.eval)
  | .unary operator argument => do
    operator.apply (← argument.eval)
  | .update operator argument before =>
    match argument.place? with
    | some place => do
      let r ← place
      let old := (← read r).toNumber
      let new := old + operator.delta
      write r (.number new)
      return .number (if before then new else old)
    | none => do
      let _ ← argument.eval
      finish (.threw .illegalAssignment)
  | .binary operator left right => do
    let left ← left.eval
    let right ← right.eval
    operator.apply left right
  | .logical operator left right => do
    let left ← left.eval
    if operator.decides left then return left else right.eval
  | .assignment operator target value =>
    match target.place? with
    | some place => do
      let r ← place
      match operator.combine? with
      | none => do
        let value ← value.eval
        write r value
        return value
      | some combine => do
        let old ← read r
        let value ← combine old (← value.eval)
        write r value
        return value
    | none => do
      let _ ← target.eval
      finish (.threw .illegalAssignment)
  | .conditional test consequent alternate => do
    if (← test.eval).truthy then consequent.eval else alternate.eval
  | .sequence expressions => evalSequence expressions

/-- How the place that an expression stands for is found. Only names and properties stand for a
    place. -/
def Expression.place? : Expression → Option (Evaluate Reference)
  | .name text => some (return .name text)
  | .member object name => some do
    placeOf (← object.eval) name
  | .index object key => some do
    let object ← object.eval
    let key ← key.eval
    placeOf object key.toKey
  | _ => none

/-- The values of all expressions, from left to right. -/
def evalAll : List Expression → Evaluate (List Value)
  | [] => return []
  | value :: rest => do
    let value ← value.eval
    return value :: (← evalAll rest)

/-- The value of the last expression. -/
def evalSequence : List Expression → Evaluate Value
  | [] => return .undefined
  | [value] => value.eval
  | value :: next :: rest => do
    let _ ← value.eval
    evalSequence (next :: rest)

/-- The values of all elements; a hole is undefined. -/
def evalElements : List (Option Expression) → Evaluate (List Value)
  | [] => return []
  | some value :: rest => do
    let value ← value.eval
    return value :: (← evalElements rest)
  | none :: rest => do
    return .undefined :: (← evalElements rest)

/-- Sets the properties of an object one after the other. -/
def evalProperties (id : Nat) : List (Property Expression) → Evaluate Unit
  | [] => return
  | ⟨key, value⟩ :: rest => do
    setProperty id key.text (← value.eval)
    evalProperties id rest

end

/-- Sets the names that have a first value. -/
def evalDeclarators : List (Declarator Expression) → Evaluate Value
  | [] => return .undefined
  | ⟨_, none⟩ :: rest => evalDeclarators rest
  | ⟨name, some init⟩ :: rest => do
    write (.name name) (← init.eval)
    evalDeclarators rest

/-- What stands first in the head of a `for` loop. -/
def LoopHead.eval : LoopHead Expression → Evaluate Value
  | .declaration declarators => evalDeclarators declarators
  | .expression value => value.eval

/-- The test of a loop; one that is left out is always true. -/
def evalTest : Option Expression → Evaluate Value
  | none => return .bool true
  | some test => test.eval

/-- A part whose value is dropped, if it is there. -/
def evalDropped : Option (Evaluate Value) → Evaluate Unit
  | none => return
  | some part => do
    let _ ← part

mutual

/-- The completion value of a statement. A statement without code of its own is left to the tree
    walker, and so is a loop whose body holds one, before anything of the loop is done. -/
def Statement.eval (fuel : Nat) : Statement → Evaluate Value
  | .block body => evalBlock fuel body
  | .expression value => value.eval
  | .declaration declarators => evalDeclarators declarators
  | .ifElse test consequent alternate => do
    if (← test.eval).truthy then consequent.eval fuel else evalAlternate fuel alternate
  | .whileLoop test body =>
    if body.needsWalker then finish (.escaped (Statement.whileLoop test body).kind)
    else rounds test.eval (body.eval fuel) fuel .undefined
  | .doWhile body test =>
    if body.needsWalker then finish (.escaped (Statement.doWhile body test).kind)
    else roundsFirst (body.eval fuel) test.eval fuel
  | .forLoop init test update body =>
    if body.needsWalker then finish (.escaped (Statement.forLoop init test update body).kind)
    else do
      evalDropped (init.map LoopHead.eval)
      let round := do
        let value ← body.eval fuel
        evalDropped (update.map Expression.eval)
        return value
      rounds (evalTest test) round fuel .undefined
  | .empty => return .undefined
  | s => finish (.escaped s.kind)

/-- The completion value of the last statement. -/
def evalBlock (fuel : Nat) : List Statement → Evaluate Value
  | [] => return .undefined
  | [s] => s.eval fuel
  | s :: next :: rest => do
    let _ ← s.eval fuel
    evalBlock fuel (next :: rest)

/-- The branch of an `if` that need not be there. -/
def evalAlternate (fuel : Nat) : Option Statement → Evaluate Value
  | some s => s.eval fuel
  | none => return .undefined

end

/-- The value of a source: of its expression, or of the statements of it that are compiled. -/
def Source.eval (fuel : Nat) : Source → Evaluate Value
  | .expression tree => tree.eval
  | .statements body asBlock => evalBlock fuel (selected body asBlock)

end StackScript
