import StackScript.Compile.Draft

/-!
# Assemblers

Compiling reaches a draft through a few steps only: it emits, reserves and patches jumps, adds
names, copies text. It is written against any implementation of these. The one that runs works on a
draft directly; with another one, compiling can be watched at work.
-/

namespace StackScript

/-- An implementation of the steps of compiling. -/
structure Assembler (ε σ : Type) where
  /-- The offset of the next instruction. -/
  position : EStateM ε σ Nat
  /-- Reports what happened. -/
  report : Event → EStateM ε σ Unit
  /-- Puts an instruction behind the others. -/
  emit : Instruction → EStateM ε σ Unit
  /-- Emits a jump that does not know its target, and gives its offset. -/
  reserveJump : Op → EStateM ε σ Nat
  /-- Emits a jump to an instruction that is there already, or to the jump itself. -/
  jumpBack : Op → (target : Nat) → EStateM ε σ Unit
  /-- Lets a jump go to the next instruction. -/
  patchJump : Nat → EStateM ε σ Unit
  /-- Adds a name, and gives its place. -/
  intern : String → EStateM ε σ Nat
  /-- Copies literal text. -/
  copy : String → EStateM ε σ String
  /-- A number of slots does not fit a word. -/
  overflow : EStateM ε σ Unit
  /-- Leaves a statement to the tree walker. -/
  escape : Statement → EStateM ε σ Unit
  /-- Compiles a loop, inside which nothing may be left to the tree walker. -/
  loop : Statement → EStateM ε σ Unit → EStateM ε σ Unit

namespace Assembler

/-- The steps that run: they work on a draft. -/
def direct : Assembler Halt Draft where
  position := Compile.position
  report := Compile.report
  emit := Compile.emit
  reserveJump := Compile.reserveJump
  jumpBack op target := Compile.emitWith op (.jump target)
  patchJump := Compile.patchJump
  intern := Compile.intern
  copy := Compile.copy
  overflow := throw (.outOfMemory .instructions)
  escape := Compile.escape
  loop := Compile.loop

variable {ε σ : Type} (s : Assembler ε σ)

/-- Emits an operation without operands. -/
def emitOp (op : Op) : EStateM ε σ Unit :=
  s.emit { op := op }

/-- Adds a name and emits an operation on it. -/
def emitName (op : Op) (text : String) (extra : Option Operand := none) : EStateM ε σ Unit := do
  let index ← s.intern text
  s.emit { op := op, operand := some (.name index), extra := extra }

/-- Emits an operation on a number of slots, which must fit a word. -/
def emitCount (op : Op) (n : Nat) : EStateM ε σ Unit :=
  if n < wordBound then s.emit { op := op, operand := some (.count n) }
  else s.overflow

/-- Emits the error for a target that is no reference, behind its value. -/
def misuse (kind : Misuse) : EStateM ε σ Unit :=
  s.emit { op := .throwMisuse, operand := some (.misuse kind) }

end Assembler

namespace Compile

/-- Adds a name and emits an operation on it. -/
abbrev emitName (op : Op) (text : String) : Compile Unit :=
  Assembler.direct.emitName op text

/-- Emits an operation on a number of slots, which must fit a word. -/
abbrev emitCount (op : Op) (n : Nat) : Compile Unit :=
  Assembler.direct.emitCount op n

/-- Emits the error for a target that is no reference, behind its value. -/
abbrev misuse (kind : Misuse) : Compile Unit :=
  Assembler.direct.misuse kind

end Compile

end StackScript
