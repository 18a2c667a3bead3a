import StackScript.Code.NamePool
import StackScript.Machine.State

/-!
# Running code

One step carries out one instruction; a run is as many steps as it is given, or as it takes to stop.
-/

namespace StackScript

/-- Code that can be run: instructions, and the names that they refer to. -/
structure Runnable where
  instructions : Array Instruction
  names : Option NamePool

/-- The machine while it runs. -/
structure Running where
  machine : Machine
  /-- The stack, the topmost slot first. -/
  stack : List Slot := []
  offset : Nat

/-- Part of a step. -/
abbrev Step := EStateM Stop Running

namespace Step

/-- Breaks off. -/
def fault {α : Type} (f : Fault) : Step α :=
  throw (.fault f)

/-- Ends with an outcome. -/
def finish {α : Type} (o : Outcome) : Step α :=
  throw (.outcome o)

/-- Goes on with a result, or stops in a fault. -/
def lift {α : Type} : Except Fault α → Step α
  | .ok a => pure a
  | .error f => fault f

/-- The machine as it is. -/
def machine : Step Machine :=
  return (← get).machine

/-- Goes on with another machine. -/
def setMachine (m : Machine) : Step Unit :=
  modify fun r => { r with machine := m }

/-- Puts a slot on the stack. -/
def pushSlot (s : Slot) : Step Unit :=
  modify fun r => { r with stack := s :: r.stack }

/-- Puts a value on the stack. -/
def push (v : Value) : Step Unit :=
  pushSlot (.value v)

/-- Takes the topmost slot. -/
def pop : Step Slot := do
  match (← get).stack with
  | slot :: rest =>
    modify fun r => { r with stack := rest }
    return slot
  | [] => fault .emptyStack

/-- The topmost slot, which stays. -/
def peek : Step Slot := do
  match (← get).stack with
  | slot :: _ => return slot
  | [] => fault .emptyStack

/-- The value in a slot; a reference is not one. -/
def asValue : Slot → Step Value
  | .value v => return v
  | .reference _ => fault .expectedValue

/-- The reference in a slot; a value is not one. -/
def asReference : Slot → Step Reference
  | .reference r => return r
  | .value _ => fault .expectedReference

/-- Takes the topmost slot, which must be a value. -/
def popValue : Step Value := do
  asValue (← pop)

/-- Takes the topmost slot, which must be a reference. -/
def popReference : Step Reference := do
  asReference (← pop)

/-- Takes the given number of values, and gives them in the order in which they were pushed. -/
def popValues (n : Nat) : Step (List Value) := do
  let stack := (← get).stack
  if stack.length < n then fault .shortStack
  else do
    modify fun r => { r with stack := stack.drop n }
    (stack.take n).reverse.mapM asValue

/-- The value in a place. -/
def read (r : Reference) : Step Value := do
  match (← machine).read r with
  | .ok value => return value
  | .error stop => throw stop

/-- Sets the value in a place. -/
def write (r : Reference) (value : Value) : Step Unit := do
  setMachine (← lift ((← machine).write r value))

/-- Goes to the target of a jump. -/
def jump (i : Instruction) : Step Unit :=
  match i.target? with
  | some target => modify fun r => { r with offset := target }
  | none => fault .unpatchedJump

/-- The name that the first operand refers to. -/
def nameOperand (code : Runnable) (i : Instruction) : Step String :=
  match i.operand with
  | some (.name index) =>
    match code.names.bind (·.get? index) with
    | some text => return text
    | none => fault (.danglingName index)
  | _ => fault (.badOperand i.op)

/-- The count in the first operand. -/
def countOperand (i : Instruction) : Step Nat :=
  match i.operand with
  | some (.count n) => return n
  | _ => fault (.badOperand i.op)

/-- A new object on the stack. -/
def pushNew (properties : Bindings) : Step Unit := do
  let m ← machine
  setMachine (m.allocate properties)
  push (.object m.objects.size)

/-- Calls the value or the place below the arguments. A place is read only now. -/
def call (i : Instruction) : Step Unit := do
  let arguments ← popValues (← countOperand i)
  let callee ← match (← pop) with
    | .value v => pure v
    | .reference r => read r
  let (result, m) ← lift ((← machine).call callee arguments)
  setMachine m
  push result

/-- Jumps and leaves the tested value if it has the given truth; else takes it and goes on. -/
def jumpOrPop (i : Instruction) (truth : Bool) : Step Unit := do
  let value ← asValue (← peek)
  if value.truthy = truth then jump i
  else do
    let _ ← pop

/-- Changes the number in a place. -/
def update (i : Instruction) (delta : Float) : Step Unit := do
  let r ← popReference
  let old := (← read r).toNumber
  write r (.number (old + delta))
  push (.number (if i.op.givesNew then old + delta else old))

/-- The operations that only work on values: two operands, one operand, or a number in a place. -/
def compute (i : Instruction) : Step Unit :=
  match i.op.binary?, i.op.unary?, i.op.step? with
  | some f, _, _ => do
    let right ← popValue
    let left ← popValue
    push (f left right)
  | _, some f, _ => do
    push (f (← popValue))
  | _, _, some delta => update i delta
  | _, _, _ => fault (.unsupported i.op)

/-- Carries out an instruction. -/
def execute (code : Runnable) (i : Instruction) : Step Unit :=
  match i.op with
  | .pushUndefined | .pushThis => push .undefined
  | .pushNull => push .null
  | .pushTrue => push (.bool true)
  | .pushFalse => push (.bool false)
  | .pushNumber =>
    match i.operand with
    | some (.number value) => push (.number value)
    | _ => fault (.badOperand i.op)
  | .pushString =>
    match i.operand with
    | some (.text content) => push (.string content)
    | _ => fault (.badOperand i.op)
  | .pushName => do
    push (.string (← nameOperand code i))
  | .pop => do
    let _ ← pop
  | .loadName => do
    let name ← nameOperand code i
    push (← read (.name name))
  | .storeVar => do
    let name ← nameOperand code i
    let value ← popValue
    write (.name name) value
  | .resolveName => do
    pushSlot (.reference (.name (← nameOperand code i)))
  | .resolveIndex => do
    let key := (← popValue).toKey
    match (← popValue) with
    | .object id => pushSlot (.reference (.property id key))
    | other => fault (.referenceOnValue other)
  | .deref => do
    push (← read (← asReference (← peek)))
  | .assign => do
    let value ← popValue
    let r ← popReference
    write r value
    push value
  | .getMember => do
    let name ← nameOperand code i
    let object ← popValue
    push (← lift ((← machine).property object name))
  | .getIndex => do
    let key := (← popValue).toKey
    let object ← popValue
    push (← lift ((← machine).property object key))
  | .setProperty => do
    let name ← nameOperand code i
    let value ← popValue
    match (← asValue (← peek)) with
    | .object id => setMachine (← lift ((← machine).setProperty id name value))
    | other => fault (.setOnValue other)
  | .newObject => pushNew []
  | .newArray => do
    pushNew (Machine.elements (← popValues (← countOperand i)))
  | .typeOfRef => do
    let r ← popReference
    match (← machine).read r with
    | .ok value => push (.string value.typeName)
    | .error (.outcome _) => push (.string Value.undefined.typeName)
    | .error stop => throw stop
  | .jump => jump i
  | .jumpIfFalse => do
    if !(← popValue).truthy then jump i
  | .jumpIfFalseOrPop => jumpOrPop i false
  | .jumpIfTrueOrPop => jumpOrPop i true
  | .call | .callRef => call i
  | .escape =>
    match i.operand with
    | some (.statement tree) => finish (.escaped tree.kind)
    | _ => fault (.badOperand i.op)
  | .throwMisuse =>
    match i.operand with
    | some (.misuse kind) => finish (.threw kind)
    | _ => fault (.badOperand i.op)
  | .ret => do
    let depth := (← get).stack.length
    if depth = 1 then finish (.returned (← popValue))
    else fault (.unbalancedReturn depth)
  | _ => compute i

/-- Carries out the next instruction. -/
def next (code : Runnable) : Step Unit := do
  let offset := (← get).offset
  match code.instructions[offset]? with
  | some i => do
    modify fun r => { r with offset := offset + 1 }
    execute code i
  | none => fault (.outsideCode offset)

end Step

/-- How a run ended, and the machine as it is then. -/
structure Ended where
  stop : Stop
  machine : Machine

/-- Runs code for at most the given number of steps. -/
def Running.run (code : Runnable) : (budget : Nat) → Running → Ended
  | 0, r => ⟨.fault .outOfSteps, r.machine⟩
  | budget + 1, r =>
    match Step.next code r with
    | .ok () r => r.run code budget
    | .error stop r => ⟨stop, r.machine⟩

namespace Machine

/-- The number of steps that a run is given. -/
def stepLimit : Nat := 100000

/-- Runs code from an offset. -/
def run (m : Machine) (code : Runnable) (start : Nat) : Ended :=
  { machine := m, offset := start : Running }.run code stepLimit

end Machine

end StackScript
