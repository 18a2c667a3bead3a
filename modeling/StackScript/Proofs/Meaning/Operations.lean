import StackScript.Proofs.Segment.Exec

/-!
# What single operations do

Each operation, on a stack with the slots that it needs, as evaluation on the machine and what it
leaves on the stack. These are the leaves of what is said about trees.
-/

namespace StackScript.Segment

open Evaluate

variable {fuel : Nat} {v w : Value} {r : Reference} {slot : Slot} {stack : List Slot}

/-- One segment after the other. -/
theorem exec_seq (a b : Segment) :
    (a.seq b).exec fuel stack = a.exec fuel stack >>= b.exec fuel := rfl

theorem exec_nothing : nothing.exec fuel stack = pure stack := rfl

theorem exec_unused (texts : List String) : (unused texts).exec fuel stack = pure stack := rfl

/-- The body of a logical operator is left out when the left value decides. -/
theorem exec_skip (operator : LogicalOperator) (body : Segment) :
    (skip operator body).exec fuel (.value v :: stack) =
      if operator.decides v then pure (.value v :: stack) else body.exec fuel stack := rfl

/-- A choice goes by whether the value counts as true. -/
theorem exec_branch (keeps : Bool) (consequent alternate : Segment) :
    (branch keeps consequent alternate).exec fuel (.value v :: stack) =
      if v.truthy then consequent.exec fuel stack
      else alternate.exec fuel (if keeps then .value v :: stack else stack) := rfl

theorem exec_pop : (Segment.op .pop).exec fuel (slot :: stack) = pure stack := rfl

theorem exec_pushUndefined :
    (Segment.op .pushUndefined).exec fuel stack = pure (.value .undefined :: stack) := rfl

theorem exec_pushThis :
    (Segment.op .pushThis).exec fuel stack = pure (.value .undefined :: stack) := rfl

/-- A name is read. -/
theorem exec_loadName (text : String) :
    (onName .loadName text).exec fuel stack =
      read (.name text) >>= fun v => pure (.value v :: stack) := by
  simp [exec, onName, Step.execute]

/-- A declared name is written. -/
theorem exec_storeVar (name : String) :
    (onName .storeVar name).exec fuel (.value v :: stack) =
      write (.name name) v >>= fun _ => pure stack := by
  simp [exec, onName, Step.execute]

/-- A name is a place, whether it is declared or not. -/
theorem exec_resolveName (text : String) (extra : Option Operand)
    (h : Op.resolveName.goesOn = true) :
    (named .resolveName text extra h).exec fuel stack = pure (.reference (.name text) :: stack) :=
  rfl

theorem exec_pushName (name : String) :
    (onName .pushName name).exec fuel stack = pure (.value (.string name) :: stack) := rfl

/-- A property is a place, if the value below its key is an object. -/
theorem exec_resolveIndex :
    (Segment.op .resolveIndex).exec fuel (.value w :: .value v :: stack) =
      placeOf v w.toKey >>= fun r => pure (.reference r :: stack) := by
  cases v <;> rfl

/-- The value of a place is pushed above the place. -/
theorem exec_deref :
    (Segment.op .deref).exec fuel (.reference r :: stack) =
      read r >>= fun v => pure (.value v :: .reference r :: stack) := by
  simp [exec, Segment.op, Step.execute]

/-- A place is replaced by the value that is written to it. -/
theorem exec_assign :
    (Segment.op .assign).exec fuel (.value v :: .reference r :: stack) =
      write r v >>= fun _ => pure (.value v :: stack) := by
  simp [exec, Segment.op, Step.execute]

/-- A property that is known by its name. -/
theorem exec_getMember (name : String) :
    (onName .getMember name).exec fuel (.value v :: stack) =
      property v name >>= fun w => pure (.value w :: stack) := by
  simp [exec, onName, Step.execute, property]

/-- A property that is known by a value, which is turned into a key. -/
theorem exec_getIndex :
    (Segment.op .getIndex).exec fuel (.value w :: .value v :: stack) =
      property v w.toKey >>= fun w => pure (.value w :: stack) := by
  simp [exec, Segment.op, Step.execute, property]

/-- A property is set in the object that stays on the stack. -/
theorem exec_setProperty (id : Nat) (name : String) :
    (onName .setProperty name).exec fuel (.value v :: .value (.object id) :: stack) =
      setProperty id name v >>= fun _ => pure (.value (.object id) :: stack) := by
  simp [exec, onName, Step.execute, setProperty]

/-- A new object is empty. -/
theorem exec_newObject :
    (Segment.op .newObject).exec fuel stack =
      allocate [] >>= fun id => pure (.value (.object id) :: stack) := by
  simp [exec, Segment.op, Step.execute, Step.pushNew, allocate]

/-- A new array has the values that were pushed, with their places as keys. -/
theorem exec_newArray (values : List Value) :
    (counted .newArray values.length).exec fuel ((values.map Slot.value).reverse ++ stack) =
      allocate (Machine.elements values) >>= fun id => pure (.value (.object id) :: stack) := by
  simp [exec, counted, Step.execute, Step.countOperand, Step.pushNew, allocate]

/-- A value is called with the values above it. -/
theorem exec_call (values : List Value) :
    (counted .call values.length).exec fuel
        ((values.map Slot.value).reverse ++ .value v :: stack) =
      call v values >>= fun w => pure (.value w :: stack) :=
  Step.acts_call values rfl

/-- A place that is called is read when the arguments are there. -/
theorem exec_callRef (values : List Value) :
    (counted .callRef values.length).exec fuel
        ((values.map Slot.value).reverse ++ .reference r :: stack) =
      read r >>= fun v => call v values >>= fun w => pure (.value w :: stack) :=
  Step.acts_call values rfl

/-- Nothing can be constructed by the machine. -/
theorem exec_construct (n : Nat) :
    (counted .construct n).exec fuel stack = fault (.unsupported .construct) := rfl

theorem exec_constructRef (n : Nat) :
    (counted .constructRef n).exec fuel stack = fault (.unsupported .constructRef) := rfl

theorem exec_delete : (Segment.op .delete).exec fuel stack = fault (.unsupported .delete) := rfl

/-- The type of what a place holds, which may be an undeclared name. -/
theorem exec_typeOfRef :
    (Segment.op .typeOfRef).exec fuel (.reference r :: stack) =
      typeOf r >>= fun v => pure (.value v :: stack) := by
  have executed : (Segment.op .typeOfRef).exec fuel (.reference r :: stack) =
      (Step.embed (typeOf r) >>= Step.push).acts stack :=
    congrArg (Step.acts · stack) (Step.machine_typeOf_eq r)
  rw [executed, Step.acts_embed_bind]
  rfl

/-- What cannot be assigned to or deleted ends the run. -/
theorem exec_misuse (kind : Misuse) :
    (misuse kind).exec fuel stack = finish (.threw kind) := rfl

/-- What is left to the tree walker ends the run with the kind of the statement. -/
theorem exec_escape (s : Statement) :
    (escape s).exec fuel stack = finish (.escaped s.kind) := rfl

/-- The operation that is chosen for a binary operator does what the operator does. -/
theorem exec_binary (operator : BinaryOperator) (h : operator.op.goesOn = true) :
    (Segment.op operator.op h).exec fuel (.value w :: .value v :: stack) =
      operator.apply v w >>= fun v => pure (.value v :: stack) := by
  cases operator <;> rfl

/-- The operation that an operator of one operand is compiled to does what the operator means. -/
theorem exec_unary {operator : UnaryOperator} (hdelete : operator ≠ .delete)
    (h : operator.op.goesOn = true) :
    (Segment.op operator.op h).exec fuel (.value v :: stack) =
      operator.apply v >>= fun v => pure (.value v :: stack) := by
  cases operator
  case delete => exact absurd rfl hdelete
  all_goals rfl

/-- The number in a place changes by one, and the old or the new one is left. -/
theorem exec_update (operator : UpdateOperator) (before : Bool)
    (h : (operator.op before).goesOn = true) :
    (Segment.op (operator.op before) h).exec fuel (.reference r :: stack) =
      (do
        let old := (← read r).toNumber
        write r (.number (old + operator.delta))
        return .value (.number (if before then old + operator.delta else old)) :: stack) := by
  have executed : (Segment.op (operator.op before) h).exec fuel (.reference r :: stack) =
      (Step.update { op := operator.op before } operator.delta).acts (.reference r :: stack) := by
    cases operator <;> cases before <;> rfl
  have givesNew : (operator.op before).givesNew = before := by
    cases operator <;> cases before <;> rfl
  rw [executed, Step.acts_update, givesNew]

/-- A literal leaves its value. -/
theorem exec_literal (value : Literal) :
    value.segment.exec fuel stack = value.eval >>= fun v => pure (.value v :: stack) := by
  cases value with
  | boolean b => cases b <;> rfl
  | _ => rfl

end StackScript.Segment
