import StackScript.Code.Op
import StackScript.Tree.Equality

/-!
# Instructions

An operation with up to two operands. Nothing ties the kind of an operand to the operation: code may
be put together by hand, and it is the business of the stack check and of the machine to object.
-/

namespace StackScript

/-- A use of an expression as a target that it cannot be, found out when the code runs. -/
inductive Misuse where
  | illegalAssignment
  | invalidDelete
  deriving DecidableEq, Repr

/-- The words for the error. -/
def Misuse.message : Misuse → String
  | .illegalAssignment => "illegal assignment target"
  | .invalidDelete => "invalid delete target"

/-- What an instruction may carry beside its operation. -/
inductive Operand where
  | count (n : Nat)
  | flag (value : Bool)
  | number (value : Float)
  /-- A name, by its place in the pool. -/
  | name (index : Nat)
  | text (content : String)
  | statement (tree : Statement)
  | function (tree : Function)
  | jump (target : Nat)
  /-- The target of a jump that is not known yet. -/
  | pending
  | misuse (kind : Misuse)

/-- An operation with up to two operands. Which ones it needs is up to the operation. -/
structure Instruction where
  op : Op
  operand : Option Operand := none
  extra : Option Operand := none

/-- How many slots of the stack are taken, and how many are put in their place. -/
structure StackEffect where
  pops : Nat
  pushes : Nat
  deriving DecidableEq, Repr

namespace Instruction

/-- The count that the first operand gives, or zero. -/
def count (i : Instruction) : Nat :=
  match i.operand with
  | some (.count n) => n
  | _ => 0

/-- What the instruction does to the stack when control goes on behind it. -/
def effect (i : Instruction) : StackEffect :=
  match i.op with
  | .pushUndefined | .pushNull | .pushTrue | .pushFalse | .pushNumber | .pushString
  | .pushRegExp | .pushThis | .pushName | .pushFunction => ⟨0, 1⟩
  | .pop => ⟨1, 0⟩
  | .loadName | .resolveName => ⟨0, 1⟩
  | .storeVar => ⟨1, 0⟩
  | .resolveIndex => ⟨2, 1⟩
  | .deref => ⟨1, 2⟩
  | .assign => ⟨2, 1⟩
  | .getMember => ⟨1, 1⟩
  | .getIndex => ⟨2, 1⟩
  | .setProperty => ⟨2, 1⟩
  | .newObject => ⟨0, 1⟩
  | .newArray => ⟨i.count, 1⟩
  | .add | .sub | .mul | .div | .mod | .shl | .shr | .ushr | .bitAnd | .bitOr | .bitXor
  | .eq | .ne | .strictEq | .strictNe | .lt | .le | .gt | .ge | .isIn | .instanceOf => ⟨2, 1⟩
  | .neg | .plus | .not | .bitNot | .typeOf | .typeOfRef | .void | .delete => ⟨1, 1⟩
  | .preInc | .preDec | .postInc | .postDec => ⟨1, 1⟩
  | .jump => ⟨0, 0⟩
  | .jumpIfFalse => ⟨1, 0⟩
  -- Going on takes the tested value; the jump leaves it.
  | .jumpIfFalseOrPop | .jumpIfTrueOrPop => ⟨1, 0⟩
  | .call | .callRef | .construct | .constructRef => ⟨i.count + 1, 1⟩
  | .escape => ⟨0, 1⟩
  | .throwMisuse => ⟨1, 1⟩
  | .ret => ⟨1, 0⟩

/-- Where a jump goes, when it is a jump and knows. -/
def target? (i : Instruction) : Option Nat :=
  match i.op.isJump, i.operand with
  | true, some (.jump target) => some target
  | _, _ => none

end Instruction

/-- Operands are equal when they are alike and hold equal numbers, texts or trees. -/
def Operand.same : Operand → Operand → Bool
  | .count m => fun | .count n => m == n | _ => false
  | .flag a => fun | .flag b => a == b | _ => false
  | .number x => fun | .number y => Number.same x y | _ => false
  | .name m => fun | .name n => m == n | _ => false
  | .text s => fun | .text t => s == t | _ => false
  | .statement s => fun | .statement t => s.same t | _ => false
  | .function f => fun | .function g => f.same g | _ => false
  | .jump m => fun | .jump n => m == n | _ => false
  | .pending => fun | .pending => true | _ => false
  | .misuse a => fun | .misuse b => a == b | _ => false

/-- Operands that may be missing are equal when both are missing or they are equal. -/
def Operand.same? : Option Operand → Option Operand → Bool
  | some a => fun | some b => a.same b | none => false
  | none => Option.isNone

/-- Instructions are equal when their operations and operands are. -/
def Instruction.same (i j : Instruction) : Bool :=
  i.op == j.op && Operand.same? i.operand j.operand && Operand.same? i.extra j.extra

end StackScript
