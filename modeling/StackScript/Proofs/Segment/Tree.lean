import StackScript.Compile.Statement
import StackScript.Proofs.Segment.Basic

/-!
# The segments of trees

The code of each expression and statement as a segment. A loop that holds a statement without code
of its own is left to the tree walker as a whole; the names that were added until that was found out
stay behind.
-/

namespace StackScript

@[simp] theorem BinaryOperator.goesOn_op (operator : BinaryOperator) :
    operator.op.goesOn = true := by
  cases operator <;> rfl

@[simp] theorem UnaryOperator.goesOn_op (operator : UnaryOperator) :
    operator.op.goesOn = true := by
  cases operator <;> rfl

@[simp] theorem UpdateOperator.goesOn_op (operator : UpdateOperator) (before : Bool) :
    (operator.op before).goesOn = true := by
  cases operator <;> cases before <;> rfl

namespace Segment

/-- An operation on a name. -/
def onName (o : Op) (text : String) (h : o.goesOn = true := by decide) : Segment :=
  .named o text none h

/-- An operation on a number of slots. -/
def counted (o : Op) (n : Nat) (h : o.goesOn = true := by decide) : Segment :=
  .plain { op := o, operand := some (.count n) } (by simp [Instruction.isFixed, h])

/-- The error for a target that is no reference. -/
def misuse (kind : Misuse) : Segment :=
  .plain { op := .throwMisuse, operand := some (.misuse kind) } rfl

/-- A statement that is left to the tree walker. -/
def escape (s : Statement) : Segment :=
  .plain { op := .escape, operand := some (.statement s) } rfl

end Segment

open Segment

/-- The code of a literal: one instruction that pushes it. -/
def Literal.segment : Literal → Segment
  | .number value => .plain { op := .pushNumber, operand := some (.number value) } rfl
  | .string text => .plain { op := .pushString, operand := some (.text text) } rfl
  | .regExp pattern flags =>
    .plain { op := .pushRegExp, operand := some (.text pattern), extra := some (.text flags) } rfl
  | .boolean true => .op .pushTrue
  | .boolean false => .op .pushFalse
  | .null => .op .pushNull
  | .undefined => .op .pushUndefined

mutual

/-- The code of an expression, which leaves its value on the stack. -/
def Expression.segment : Expression → Segment
  | .literal value => value.segment
  | .name text => onName .loadName text
  | .thisValue => .op .pushThis
  | .function name params body =>
    .plain { op := .pushFunction, operand := some (.function ⟨name, params, body⟩) } rfl
  | .array elements => (elementsSegment elements).seq (counted .newArray elements.length)
  | .object properties => (Segment.op .newObject).seq (propertiesSegment properties)
  | .member object name => object.segment.seq (onName .getMember name)
  | .index object key => object.segment.seq (key.segment.seq (.op .getIndex))
  | .call callee arguments =>
    if callee.isReference then
      (callee.referenceSegment false).seq
        ((expressionsSegment arguments).seq (counted .callRef arguments.length))
    else
      callee.segment.seq ((expressionsSegment arguments).seq (counted .call arguments.length))
  | .construct callee arguments =>
    if callee.isReference then
      (callee.referenceSegment false).seq
        ((expressionsSegment arguments).seq (counted .constructRef arguments.length))
    else
      callee.segment.seq ((expressionsSegment arguments).seq (counted .construct arguments.length))
  | .unary .delete argument =>
    if argument.isReference then (argument.referenceSegment false).seq (.op .delete)
    else argument.segment.seq (misuse .invalidDelete)
  | .unary .typeof argument =>
    if argument.isReference then (argument.referenceSegment false).seq (.op .typeOfRef)
    else argument.segment.seq (.op .typeOf)
  | .unary operator argument => argument.segment.seq (.op operator.op operator.goesOn_op)
  | .update operator argument before =>
    if argument.isReference then
      (argument.referenceSegment false).seq (.op (operator.op before) (operator.goesOn_op before))
    else argument.segment.seq (misuse .illegalAssignment)
  | .binary operator left right =>
    left.segment.seq (right.segment.seq (.op operator.op operator.goesOn_op))
  | .logical operator left right => left.segment.seq (.skip operator right.segment)
  | .assignment operator target value =>
    if target.isReference then
      (target.referenceSegment true).seq
        (match operator.binary? with
        | none => value.segment.seq (.op .assign)
        | some binary => (Segment.op .deref).seq
            (value.segment.seq ((Segment.op binary.op binary.goesOn_op).seq (.op .assign))))
    else target.segment.seq (misuse .illegalAssignment)
  | .conditional test consequent alternate =>
    test.segment.seq (.branch true consequent.segment ((Segment.op .pop).seq alternate.segment))
  | .sequence expressions => sequenceSegment expressions

/-- The place that an expression stands for. -/
def Expression.referenceSegment : Expression → (create : Bool) → Segment
  | .name text, create => .named .resolveName text (some (.flag create)) rfl
  | .member object name, _ => object.segment.seq ((onName .pushName name).seq (.op .resolveIndex))
  | .index object key, _ => object.segment.seq (key.segment.seq (.op .resolveIndex))
  | _, _ => .nothing

/-- The values of the expressions, one above the other. -/
def expressionsSegment : List Expression → Segment
  | [] => .nothing
  | value :: rest => value.segment.seq (expressionsSegment rest)

/-- The expressions one after the other, of which only the last leaves its value. -/
def sequenceSegment : List Expression → Segment
  | [] => .op .pushUndefined
  | [value] => value.segment
  | value :: next :: rest =>
    value.segment.seq ((Segment.op .pop).seq (sequenceSegment (next :: rest)))

/-- The elements of an array literal, one above the other; a hole is undefined. -/
def elementsSegment : List (Option Expression) → Segment
  | [] => .nothing
  | some value :: rest => value.segment.seq (elementsSegment rest)
  | none :: rest => (Segment.op .pushUndefined).seq (elementsSegment rest)

/-- The properties of an object literal, each set in the object below its value. -/
def propertiesSegment : List (Property Expression) → Segment
  | [] => .nothing
  | ⟨key, value⟩ :: rest =>
    value.segment.seq ((onName .setProperty key.text).seq (propertiesSegment rest))

end

/-- The declared names, each stored if it has an initial value. What is left is undefined. -/
def declaratorsSegment : List (Declarator Expression) → Segment
  | [] => .op .pushUndefined
  | ⟨_, none⟩ :: rest => declaratorsSegment rest
  | ⟨name, some init⟩ :: rest =>
    init.segment.seq ((onName .storeVar name).seq (declaratorsSegment rest))

/-- The code of what begins a `for`. -/
def LoopHead.segment : LoopHead Expression → Segment
  | .declaration declarators => declaratorsSegment declarators
  | .expression value => value.segment

/-- A part whose value is dropped, if it is there. -/
def droppedSegment : Option Segment → Segment
  | none => .nothing
  | some part => part.seq (.op .pop)

@[simp] theorem names_dropped_none : (droppedSegment none).names = [] := rfl

@[simp] theorem names_dropped_some (part : Segment) :
    (droppedSegment (some part)).names = part.names :=
  List.append_nil _

/-- The statement has no code of its own. -/
def Statement.isForeign : Statement → Bool
  | .block .. | .expression .. | .declaration .. | .ifElse .. | .whileLoop .. | .doWhile ..
  | .forLoop .. | .empty => false
  | _ => true

mutual

/-- The statement, or one inside of it, has no code of its own. -/
def Statement.needsWalker : Statement → Bool
  | .expression _ | .declaration _ | .empty => false
  | .block body => blockNeedsWalker body
  | .ifElse _ consequent alternate =>
    consequent.needsWalker || alternateNeedsWalker alternate
  | .whileLoop _ body | .doWhile body _ | .forLoop _ _ _ body => body.needsWalker
  | _ => true

/-- One of the statements needs the tree walker. -/
def blockNeedsWalker : List Statement → Bool
  | [] => false
  | s :: rest => s.needsWalker || blockNeedsWalker rest

/-- There is an alternate, and it needs the tree walker. -/
def alternateNeedsWalker : Option Statement → Bool
  | none => false
  | some s => s.needsWalker

end

mutual

/-- The code of a statement, which leaves its completion value on the stack. A loop with a body that
    needs the tree walker is handed over whole, and the names that were added for it stay. -/
def Statement.segment : Statement → Segment
  | .block body => blockSegment body
  | .expression value => value.segment
  | .declaration declarators => declaratorsSegment declarators
  | .ifElse test consequent alternate =>
    test.segment.seq (.branch false consequent.segment (alternateSegment alternate))
  | .whileLoop test body =>
    if body.needsWalker then
      (Segment.unused (test.segment.names ++ body.leftovers)).seq (escape (.whileLoop test body))
    else
      (Segment.op .pushUndefined).seq
        (.cycle test.segment ((Segment.op .pop).seq body.segment))
  | .doWhile body test =>
    if body.needsWalker then
      (Segment.unused body.leftovers).seq (escape (.doWhile body test))
    else .cycle (body.segment.seq test.segment) (.op .pop)
  | .forLoop init test update body =>
    if body.needsWalker then
      (Segment.unused ((droppedSegment (init.map LoopHead.segment)).names ++
        (droppedSegment (test.map Expression.segment)).names ++ body.leftovers)).seq
          (escape (.forLoop init test update body))
    else
      let round := (Segment.op .pop).seq
        (body.segment.seq (droppedSegment (update.map Expression.segment)))
      (droppedSegment (init.map LoopHead.segment)).seq ((Segment.op .pushUndefined).seq
        (match test with
        | some test => .cycle test.segment round
        | none => .forever round))
  | .empty => .op .pushUndefined
  | s => escape s

/-- The statements one after the other, of which only the last leaves its value. -/
def blockSegment : List Statement → Segment
  | [] => .op .pushUndefined
  | [s] => s.segment
  | s :: next :: rest => s.segment.seq ((Segment.op .pop).seq (blockSegment (next :: rest)))

/-- The alternate of a choice; without one the choice is undefined. -/
def alternateSegment : Option Statement → Segment
  | some s => s.segment
  | none => .op .pushUndefined

/-- The names that are added before it is found out that the statement needs the tree walker. -/
def Statement.leftovers : Statement → List String
  | .block body => blockLeftovers body
  | .ifElse test consequent alternate =>
    test.segment.names ++
      if consequent.needsWalker then consequent.leftovers
      else consequent.segment.names ++ alternateLeftovers alternate
  | .whileLoop test body => test.segment.names ++ body.leftovers
  | .doWhile body _ => body.leftovers
  | .forLoop init test _ body =>
    (droppedSegment (init.map LoopHead.segment)).names ++
      (droppedSegment (test.map Expression.segment)).names ++ body.leftovers
  | _ => []

/-- All names of the statements before the first that needs the tree walker, and its leftovers. -/
def blockLeftovers : List Statement → List String
  | [] => []
  | s :: rest =>
    if s.needsWalker then s.leftovers else s.segment.names ++ blockLeftovers rest

/-- The leftovers of the alternate, if there is one. -/
def alternateLeftovers : Option Statement → List String
  | some s => s.leftovers
  | none => []

end

/-! ## Expressions have no loops -/

theorem Literal.isStraight_segment (value : Literal) : value.segment.isStraight = true := by
  cases value with
  | boolean b => cases b <;> rfl
  | _ => rfl

mutual

/-- The code of an expression repeats nothing. -/
theorem Expression.isStraight_segment : (e : Expression) → e.segment.isStraight = true
  | .literal value => by
    rw [Expression.segment]
    exact value.isStraight_segment
  | .name _ | .thisValue | .function .. => rfl
  | .array elements => by
    rw [Expression.segment]
    simp [isStraight, elements_isStraight elements, counted]
  | .object properties => by
    rw [Expression.segment]
    simp [isStraight, properties_isStraight properties, Segment.op]
  | .member object name => by
    rw [Expression.segment]
    simp [isStraight, object.isStraight_segment, onName]
  | .index object key => by
    rw [Expression.segment]
    simp [isStraight, object.isStraight_segment, key.isStraight_segment, Segment.op]
  | .call callee arguments | .construct callee arguments => by
    rw [Expression.segment]
    split <;> simp [isStraight, callee.isStraight_segment, callee.isStraight_referenceSegment,
      expressions_isStraight arguments, counted]
  | .unary .minus argument | .unary .plus argument | .unary .not argument | .unary .bitNot argument
  | .unary .void argument => by
    show (argument.segment.isStraight && true) = true
    rw [argument.isStraight_segment, Bool.and_true]
  | .unary .delete argument | .unary .typeof argument | .update _ argument _ => by
    rw [Expression.segment]
    split <;> simp [isStraight, argument.isStraight_segment, argument.isStraight_referenceSegment,
      Segment.op, misuse]
  | .binary operator left right => by
    rw [Expression.segment]
    simp [isStraight, left.isStraight_segment, right.isStraight_segment, Segment.op]
  | .logical operator left right => by
    rw [Expression.segment]
    simp [isStraight, left.isStraight_segment, right.isStraight_segment]
  | .assignment operator target value => by
    rw [Expression.segment]
    split
    · cases operator.binary? <;> simp [isStraight, target.isStraight_referenceSegment,
        value.isStraight_segment, Segment.op]
    · simp [isStraight, target.isStraight_segment, misuse]
  | .conditional test consequent alternate => by
    rw [Expression.segment]
    simp [isStraight, test.isStraight_segment, consequent.isStraight_segment,
      alternate.isStraight_segment, Segment.op]
  | .sequence expressions => by
    rw [Expression.segment]
    exact sequence_isStraight expressions

theorem Expression.isStraight_referenceSegment : (e : Expression) → ∀ create,
    (e.referenceSegment create).isStraight = true
  | .name text, create => by
    rw [Expression.referenceSegment]
    rfl
  | .member object name, create => by
    rw [Expression.referenceSegment]
    simp [isStraight, object.isStraight_segment, onName, Segment.op]
  | .index object key, create => by
    rw [Expression.referenceSegment]
    simp [isStraight, object.isStraight_segment, key.isStraight_segment, Segment.op]
  | .literal _, _ | .thisValue, _ | .function .., _ | .array _, _ | .object _, _ | .call .., _
  | .construct .., _ | .unary .., _ | .update .., _ | .binary .., _ | .logical .., _
  | .assignment .., _ | .conditional .., _ | .sequence _, _ => by
    rw [Expression.referenceSegment]
    · rfl
    all_goals simp

theorem expressions_isStraight : (list : List Expression) →
    (expressionsSegment list).isStraight = true
  | [] => by
    rw [expressionsSegment]
    rfl
  | value :: rest => by
    rw [expressionsSegment]
    simp [isStraight, value.isStraight_segment, expressions_isStraight rest]

theorem sequence_isStraight : (list : List Expression) →
    (sequenceSegment list).isStraight = true
  | [] => by
    rw [sequenceSegment]
    rfl
  | [value] => by
    rw [sequenceSegment]
    exact value.isStraight_segment
  | value :: next :: rest => by
    rw [sequenceSegment]
    simp [isStraight, value.isStraight_segment, sequence_isStraight (next :: rest), Segment.op]

theorem elements_isStraight : (list : List (Option Expression)) →
    (elementsSegment list).isStraight = true
  | [] => by
    rw [elementsSegment]
    rfl
  | some value :: rest => by
    rw [elementsSegment]
    simp [isStraight, value.isStraight_segment, elements_isStraight rest]
  | none :: rest => by
    rw [elementsSegment]
    simp [isStraight, elements_isStraight rest, Segment.op]

theorem properties_isStraight : (list : List (Property Expression)) →
    (propertiesSegment list).isStraight = true
  | [] => by
    rw [propertiesSegment]
    rfl
  | ⟨key, value⟩ :: rest => by
    rw [propertiesSegment]
    simp [isStraight, value.isStraight_segment, properties_isStraight rest, onName]

end

/-! ## Statements without code of their own -/

section Foreign

variable {s : Statement}

theorem Statement.compile_of_isForeign (h : s.isForeign = true) : s.compile = Compile.escape s := by
  cases s <;> first | rfl | cases h

theorem Statement.segment_of_isForeign (h : s.isForeign = true) : s.segment = escape s := by
  cases s <;> simp_all [Statement.isForeign, Statement.segment]

theorem Statement.needsWalker_of_isForeign (h : s.isForeign = true) : s.needsWalker = true := by
  cases s <;> simp_all [Statement.isForeign, Statement.needsWalker]

theorem Statement.leftovers_of_isForeign (h : s.isForeign = true) : s.leftovers = [] := by
  cases s <;> simp_all [Statement.isForeign, Statement.leftovers]

end Foreign

end StackScript
