import StackScript.Code.Instruction
import StackScript.Machine.Value

/-!
# The state of the machine

Global names, objects and native functions, and the ways to read and write them. A run can end with
an outcome, or in a fault: something that no code with a sound stack and the right operands brings
about, that this machine does not do, or that takes too long.
-/

namespace StackScript

/-- Names or properties with their values, in the order in which they were first set. -/
abbrev Bindings := List (String × Value)

namespace Bindings

/-- The value of a name. -/
def get? (b : Bindings) (key : String) : Option Value :=
  List.lookup key b

/-- Sets a name, which keeps its place if it has one. -/
def set : Bindings → String → Value → Bindings
  | [], key, value => [(key, value)]
  | (k, v) :: rest, key, value =>
    if k = key then (key, value) :: rest else (k, v) :: set rest key value

end Bindings

/-- A call of a native function, which is told by its number and its name. -/
structure Call where
  native : Nat
  name : String
  arguments : List Value

/-- A function from outside of the language. What it answers may depend on the calls made before. -/
structure Native where
  name : String
  apply : Array Call → List Value → Value

/-- All that outlives a run. -/
structure Machine where
  globals : Bindings := []
  objects : Array Bindings := #[]
  natives : Array Native := #[]
  /-- The calls of native functions so far. -/
  calls : Array Call := #[]

/-- A place that can be read and written. -/
inductive Reference where
  | name (text : String)
  | property (object : Nat) (key : String)

/-- A place on the stack. -/
inductive Slot where
  | value (v : Value)
  | reference (r : Reference)

/-- How code ends. -/
inductive Outcome where
  | returned (value : Value)
  | threw (misuse : Misuse)
  /-- A name was read that has no value. -/
  | undeclared (name : String)
  /-- A statement was met that is left to the tree walker. -/
  | escaped (kind : String)

/-- Why a run breaks off. -/
inductive Fault where
  | outsideCode (offset : Nat)
  | emptyStack
  /-- There are fewer slots than the instruction counts. -/
  | shortStack
  | expectedValue
  | expectedReference
  | unbalancedReturn (depth : Nat)
  | unpatchedJump
  | badOperand (op : Op)
  | danglingName (index : Nat)
  | danglingObject (id : Nat)
  | danglingNative (id : Nat)
  /-- A property is set on what is no object. -/
  | setOnValue (value : Value)
  /-- A reference is made to a property of what is no object. -/
  | referenceOnValue (value : Value)
  | notCallable (value : Value)
  | unsupported (op : Op)
  | outOfSteps

/-- The words for the fault. -/
def Fault.message : Fault → String
  | .outsideCode offset => "no instruction at " ++ toString offset
  | .emptyStack => "pop on empty stack"
  | .shortStack => "not enough values on the stack"
  | .expectedValue => "expected a value"
  | .expectedReference => "expected a reference"
  | .unbalancedReturn _ => "return must see exactly one value"
  | .unpatchedJump => "unpatched jump"
  | .badOperand op => "bad " ++ op.mnemonic ++ " operand"
  | .danglingName _ => "dangling name"
  | .danglingObject _ => "dangling object"
  | .danglingNative _ => "dangling function"
  | .setOnValue value => "set_property on " ++ value.describe
  | .referenceOnValue value => "property reference on " ++ value.describe
  | .notCallable value => "call of non-function " ++ value.describe
  | .unsupported op => "reference interpreter does not support " ++ op.mnemonic
  | .outOfSteps => "step limit exceeded"

/-- Why a run stops. -/
inductive Stop where
  | outcome (o : Outcome)
  | fault (f : Fault)

namespace Machine

/-- Adds a native function under a global name. -/
def defineNative (m : Machine) (native : Native) : Machine :=
  { m with
    globals := m.globals.set native.name (.native m.natives.size)
    natives := m.natives.push native }

/-- The properties of an object. -/
def object (m : Machine) (id : Nat) : Except Fault Bindings :=
  match m.objects[id]? with
  | some properties => .ok properties
  | none => .error (.danglingObject id)

/-- A property of a value; what is no object has none. -/
def property (m : Machine) (value : Value) (key : String) : Except Fault Value :=
  match value with
  | .object id => (m.object id).map fun properties => (properties.get? key).getD .undefined
  | _ => .ok .undefined

/-- The value in a place; a name without a value is an error. -/
def read (m : Machine) : Reference → Except Stop Value
  | .name text =>
    match m.globals.get? text with
    | some value => .ok value
    | none => .error (.outcome (.undeclared text))
  | .property id key => (m.property (.object id) key).mapError .fault

/-- Sets a global name. -/
def setGlobal (m : Machine) (name : String) (value : Value) : Machine :=
  { m with globals := m.globals.set name value }

/-- Sets a property of an object. -/
def setProperty (m : Machine) (id : Nat) (key : String) (value : Value) : Except Fault Machine :=
  if id < m.objects.size then
    .ok { m with objects := m.objects.modify id fun properties => properties.set key value }
  else .error (.danglingObject id)

/-- Sets the value in a place. -/
def write (m : Machine) (r : Reference) (value : Value) : Except Fault Machine :=
  match r with
  | .name text => .ok (m.setGlobal text value)
  | .property id key => m.setProperty id key value

/-- Adds an object; its number is the number of objects before. -/
def allocate (m : Machine) (properties : Bindings) : Machine :=
  { m with objects := m.objects.push properties }

/-- The properties of an array with the given elements. -/
def elements (values : List Value) : Bindings :=
  values.zipIdx.map (fun (value, i) => (toString i, value)) ++
    [("length", .number (Float.ofNat values.length))]

/-- Calls a value. -/
def call (m : Machine) (callee : Value) (arguments : List Value) :
    Except Fault (Value × Machine) :=
  match callee with
  | .native id =>
    match m.natives[id]? with
    | some native =>
      .ok (native.apply m.calls arguments,
        { m with calls := m.calls.push ⟨id, native.name, arguments⟩ })
    | none => .error (.danglingNative id)
  | other => .error (.notCallable other)

end Machine

end StackScript
