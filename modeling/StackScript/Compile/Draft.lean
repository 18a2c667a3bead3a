import StackScript.Code.Arena
import StackScript.Code.Buffer
import StackScript.Code.NamePool

/-!
# Drafts

What is being filled while a tree is compiled, and the steps that fill it. A step can fail, and then
the draft is as far as it got: nothing is undone unless a step says so.
-/

namespace StackScript

/-- Code, names and arena while a tree is compiled into them. -/
structure Draft where
  code : Code
  names : NamePool
  arena : Arena
  /-- A statement without code of its own may be left to the tree walker. -/
  escapes : Bool
  /-- What was reported so far. -/
  events : Array Event := #[]

/-- Why compiling stops. -/
inductive Halt where
  | outOfMemory (region : Region)
  /-- A statement has no code of its own, and may not be left to the tree walker here. -/
  | needsWalker
  deriving DecidableEq, Repr

/-- A step of compiling. -/
abbrev Compile := EStateM Halt Draft

namespace Compile

/-- The offset of the next instruction. -/
def position : Compile Nat :=
  fun d => .ok d.code.length d

/-- Puts down what happened. -/
def report (event : Event) : Compile Unit :=
  fun d => .ok () { d with events := d.events.push event }

/-- The draft with what it reported when a buffer grew. -/
def reportGrowth (d : Draft) : Option Event → Draft
  | some event => { d with events := d.events.push event }
  | none => d

/-- Puts an instruction behind the others. -/
def emit (i : Instruction) : Compile Unit :=
  fun d =>
    if d.code.hasRoom then
      let growth := d.code.growth?
      .ok () (reportGrowth { d with code := d.code.push i } growth)
    else .error (.outOfMemory .instructions) d

/-- Emits an operation without operands. -/
def emitOp (op : Op) : Compile Unit :=
  emit { op := op }

/-- Emits an operation with one operand. -/
def emitWith (op : Op) (operand : Operand) : Compile Unit :=
  emit { op := op, operand := some operand }

/-- Emits a jump that does not know its target, and gives its offset. -/
def reserveJump (op : Op) : Compile Nat := do
  let offset ← position
  emitWith op .pending
  return offset

/-- Lets a jump go to the next instruction. -/
def patchJump (offset : Nat) : Compile Unit :=
  fun d => .ok () { d with code := d.code.setOperand offset (some (.jump d.code.length)) }

/-- Adds a name, and gives its place. The pool may have grown even if there is no place. -/
def intern (text : String) : Compile Nat :=
  fun d =>
    let growth := d.names.growth?
    if d.names.hasRoom then
      let index := d.names.length
      .ok index (reportGrowth { d with names := d.names.push text } growth)
    else .error (.outOfMemory .names) (reportGrowth { d with names := d.names.makeRoom } growth)

/-- Copies literal text. -/
def copy (text : String) : Compile String :=
  fun d =>
    match d.arena.copy text with
    | .ok (text, arena) => .ok text { d with arena := arena }
    | .error region => .error (.outOfMemory region) d

/-- Leaves a statement to the tree walker. -/
def escape (s : Statement) : Compile Unit :=
  fun d => if d.escapes then emitWith .escape (.statement s) d else .error .needsWalker d

/-- Compiles a loop, inside which nothing may be left to the tree walker. If something has to be,
    the code of the loop is taken back, and the loop is left to the tree walker as a whole. -/
def loop (s : Statement) (body : Compile Unit) : Compile Unit :=
  fun d =>
    let start := d.code.length
    let outer := d.escapes
    match body { d with escapes := false } with
    | .ok () e => .ok () { e with escapes := outer }
    | .error .needsWalker e =>
      escape s {
        e with
        code := e.code.rewind start
        escapes := outer
        events := e.events.push (.escapedLoop s.kind start (e.code.length - start)) }
    | .error halt e => .error halt { e with escapes := outer }

end Compile

end StackScript
