import StackScript.Code.Buffer

/-!
# Edits

What can be done to code from outside, one edit at a time, and what is answered to it. Instructions
are named by their index. An edit that names one that was not emitted, or for which there is no
room, is refused.
-/

namespace StackScript

/-- What can be done to code. -/
inductive Edit where
  | emit (i : Instruction)
  | setOperand (index : Nat) (operand : Operand)
  /-- Removes the first operand of an instruction. -/
  | takeOperand (index : Nat)
  | rewind (length : Nat)

/-- What comes of an edit. -/
inductive Edit.Answer where
  /-- The index of the new instruction. -/
  | emitted (index : Nat)
  | outOfMemory (region : Region)
  | set
  /-- The operand that was removed, if the instruction had one. -/
  | taken (operand : Option Operand)
  /-- There is no instruction at the index. -/
  | absent
  | rewound

/-- The edit was not done. -/
def Edit.Answer.isRefusal : Edit.Answer → Bool
  | .outOfMemory _ | .absent => true
  | .emitted _ | .set | .taken _ | .rewound => false

namespace Code

/-- The first operand of the instruction at an index, when there is such an instruction. -/
def operandAt? (c : Code) (index : Nat) : Option (Option Operand) :=
  c.instructions[index]?.map (·.operand)

/-- Does an edit. -/
def edit (c : Code) : Edit → Edit.Answer × Code
  | .emit i =>
    let index := c.length
    match c.emit i with
    | .ok longer => (.emitted index, longer)
    | .error region => (.outOfMemory region, c)
  | .setOperand index operand =>
    ((c.operandAt? index).elim .absent fun _ => .set, c.setOperand index (some operand))
  | .takeOperand index =>
    ((c.operandAt? index).elim .absent .taken, c.setOperand index none)
  | .rewind length => (.rewound, c.rewind length)

end Code

end StackScript
