import StackScript.Code.Instruction
import StackScript.Code.Region

/-!
# Code

Instructions in the order in which they were emitted, in a buffer that doubles when it is full. A
limit on their number is checked before the buffer grows. Instructions can be taken back from the
end, which leaves the capacity as it is, and the first operand of an instruction can be set later.
-/

namespace StackScript

/-- The instructions of a unit, the room that there is for them, and how many there may be. -/
structure Code where
  instructions : Array Instruction
  capacity : Nat
  limit : Option Nat

namespace Code

/-- The capacity of code for which none is asked. -/
def defaultCapacity : Nat := 64

/-- Empty code with room for at least one instruction. -/
def create (capacity : Nat) (limit : Option Nat) : Except Region Code :=
  if entryBound ≤ max capacity 1 then .error .instructions else .ok ⟨#[], max capacity 1, limit⟩

theorem create_eq_ok {capacity : Nat} {limit : Option Nat} {c : Code} :
    create capacity limit = .ok c ↔
      max capacity 1 < entryBound ∧ c = ⟨#[], max capacity 1, limit⟩ := by
  by_cases large : entryBound ≤ max capacity 1
  · simp only [create, if_pos large, Nat.not_lt.mpr large, false_and, reduceCtorEq]
  · simp only [create, if_neg large, Nat.lt_of_not_le large, true_and, Except.ok.injEq, eq_comm]

/-- The number of instructions. -/
def length (c : Code) : Nat :=
  c.instructions.size

/-- The limit leaves no room for another instruction. -/
def isAtLimit (c : Code) : Bool :=
  match c.limit with
  | some limit => limit ≤ c.length
  | none => false

/-- The buffer has to grow before the next instruction. -/
def isFull (c : Code) : Bool :=
  c.length == c.capacity

/-- Another instruction can be had. -/
def hasRoom (c : Code) : Bool :=
  !c.isAtLimit && (!c.isFull || 2 * c.capacity < entryBound)

/-- The growth that the next instruction brings about. -/
def growth? (c : Code) : Option Event :=
  if c.isFull then some (.grewCode c.capacity (2 * c.capacity)) else none

/-- The code with one more instruction. -/
def push (c : Code) (i : Instruction) : Code :=
  -- The capacity comes first, so that the instructions are not shared when one is added.
  let capacity := if c.isFull then 2 * c.capacity else c.capacity
  { c with instructions := c.instructions.push i, capacity }

/-- Adds an instruction if there is room for it. -/
@[inline] def emit (c : Code) (i : Instruction) : Except Region Code :=
  -- Inlined, so that the code is not shared where it is kept for the case that there is no room.
  if c.hasRoom then .ok (c.push i) else .error .instructions

/-- The code with another first operand at an index. Nothing changes past the end. -/
def setOperand (c : Code) (index : Nat) (operand : Option Operand) : Code :=
  { c with instructions := c.instructions.modify index fun i => { i with operand := operand } }

/-- Takes back all instructions from the given length on. -/
def rewind (c : Code) (length : Nat) : Code :=
  { c with instructions := c.instructions.take length }

end Code

end StackScript
