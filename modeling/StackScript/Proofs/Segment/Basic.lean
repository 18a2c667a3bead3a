import Mathlib.Data.List.Basic
import StackScript.Compile.Expression

/-!
# Segments

The code of a tree, before it is known where it will stand. A segment is made of single instructions
by a few control structures, each with its jumps: what follows can be skipped, one of two parts is
chosen, a part is repeated. Placing a segment at an offset, with the next free place for a name,
gives the instructions.

What holds of every control structure, wherever it is placed, holds of the code of every tree.
-/

namespace StackScript

/-- After the operation control goes on with the next instruction. -/
def Op.goesOn (op : Op) : Bool :=
  !op.isJump && op != .ret

/-- The instruction is the same wherever it is placed. -/
def Instruction.isFixed (i : Instruction) : Bool :=
  i.op.goesOn &&
    match i.operand with
    | some (.name _) | some (.jump _) | some .pending => false
    | _ => true

/-- A jump with its target. -/
def Instruction.jumpTo (op : Op) (target : Nat) : Instruction :=
  { op := op, operand := some (.jump target) }

/-- Code that can be placed at any offset, with its control structure and the names that it adds. -/
inductive Segment where
  | plain (i : Instruction) (fixed : i.isFixed = true)
  /-- An instruction on a name of its own. -/
  | named (op : Op) (text : String) (extra : Option Operand) (goesOn : op.goesOn = true)
  /-- Names that no instruction refers to. -/
  | unused (texts : List String)
  | seq (first second : Segment)
  /-- A tested value, which is kept when the body is skipped. -/
  | skip (operator : LogicalOperator) (body : Segment)
  /-- A choice by a tested value. The jump to the alternate may keep the value. -/
  | branch (keeps : Bool) (consequent alternate : Segment)
  /-- The body follows as long as the test leaves a true value, and then the test again. -/
  | cycle (test body : Segment)
  | forever (body : Segment)

namespace Segment

/-- A single operation. -/
def op (o : Op) (h : o.goesOn = true := by decide) : Segment :=
  .plain { op := o } (by simp [Instruction.isFixed, h])

/-- No code. -/
def nothing : Segment :=
  .unused []

/-- The jump to the alternate of a choice. -/
def branchOp (keeps : Bool) : Op :=
  if keeps then .jumpIfFalseOrPop else .jumpIfFalse

/-- The number of instructions. -/
def size : Segment → Nat
  | .plain .. | .named .. => 1
  | .unused _ => 0
  | .seq first second => first.size + second.size
  | .skip _ body => body.size + 1
  | .branch _ consequent alternate => consequent.size + alternate.size + 2
  | .cycle test body => test.size + body.size + 2
  | .forever body => body.size + 1

/-- The names that are added, in order. -/
def names : Segment → List String
  | .plain .. => []
  | .named _ text .. => [text]
  | .unused texts => texts
  | .seq first second => first.names ++ second.names
  | .skip _ body => body.names
  | .branch _ consequent alternate => consequent.names ++ alternate.names
  | .cycle test body => test.names ++ body.names
  | .forever body => body.names

/-- The instructions of the segment at an offset, when its first name gets the place `n`. -/
def place : Segment → (o n : Nat) → List Instruction
  | .plain i _, _, _ => [i]
  | .named op _ extra _, _, n => [{ op := op, operand := some (.name n), extra := extra }]
  | .unused _, _, _ => []
  | .seq first second, o, n =>
    first.place o n ++ second.place (o + first.size) (n + first.names.length)
  | .skip operator body, o, n =>
    .jumpTo operator.op (o + 1 + body.size) :: body.place (o + 1) n
  | .branch keeps consequent alternate, o, n =>
    let middle := o + 1 + consequent.size + 1
    .jumpTo (branchOp keeps) middle :: consequent.place (o + 1) n ++
      .jumpTo .jump (middle + alternate.size) ::
        alternate.place middle (n + consequent.names.length)
  | .cycle test body, o, n =>
    let middle := o + test.size + 1
    test.place o n ++ .jumpTo .jumpIfFalse (middle + body.size + 1) ::
      body.place middle (n + test.names.length) ++ [.jumpTo .jump o]
  | .forever body, o, n => body.place o n ++ [.jumpTo .jump o]

/-- Nothing is repeated. -/
def isStraight : Segment → Bool
  | .plain .. | .named .. | .unused _ => true
  | .seq first second => first.isStraight && second.isStraight
  | .skip _ body => body.isStraight
  | .branch _ consequent alternate => consequent.isStraight && alternate.isStraight
  | .cycle .. | .forever _ => false

@[simp] theorem length_place (s : Segment) (o n : Nat) : (s.place o n).length = s.size := by
  induction s generalizing o n with
  | plain => rfl
  | named => rfl
  | unused => rfl
  | seq first second ih₁ ih₂ => simp [place, size, ih₁, ih₂]
  | skip operator body ih => simp [place, size, ih]
  | branch keeps consequent alternate ih₁ ih₂ =>
    simp [place, size, ih₁, ih₂]
    omega
  | cycle test body ih₁ ih₂ =>
    simp [place, size, ih₁, ih₂]
    omega
  | forever body ih => simp [place, size, ih]

end Segment

/-- The list stands in the array from an index on. -/
def Stands {α : Type} (xs : Array α) : (o : Nat) → List α → Prop
  | _, [] => True
  | o, x :: rest => xs[o]? = some x ∧ Stands xs (o + 1) rest

section Stands

variable {α : Type} {xs : Array α} {o : Nat} {x : α} {a b : List α}

@[simp] theorem stands_nil : Stands xs o [] ↔ True :=
  Iff.rfl

@[simp] theorem stands_cons : Stands xs o (x :: a) ↔ xs[o]? = some x ∧ Stands xs (o + 1) a :=
  Iff.rfl

@[simp] theorem stands_append :
    Stands xs o (a ++ b) ↔ Stands xs o a ∧ Stands xs (o + a.length) b := by
  induction a generalizing o with
  | nil => simp
  | cons x a ih =>
    rw [List.cons_append, stands_cons, stands_cons, ih, List.length_cons, and_assoc,
      Nat.add_right_comm, Nat.add_assoc]

theorem stands_of_toList_eq (before : List α) (h : xs.toList = before ++ a) :
    Stands xs before.length a := by
  induction a generalizing before with
  | nil => trivial
  | cons x a ih =>
    constructor
    · rw [← Array.getElem?_toList, h]
      simp
    · have := ih (before ++ [x]) (by simpa using h)
      rwa [List.length_append] at this

end Stands

namespace Segment

/-! ## Where the parts of a segment stand -/

variable {code : Array Instruction} {o n : Nat} {a b : Segment}

theorem stands_seq : Stands code o ((a.seq b).place o n) ↔
    Stands code o (a.place o n) ∧
      Stands code (o + a.size) (b.place (o + a.size) (n + a.names.length)) := by
  rw [place, stands_append, length_place]

theorem stands_skip {operator : LogicalOperator} :
    Stands code o ((skip operator a).place o n) ↔
      code[o]? = some (.jumpTo operator.op (o + 1 + a.size)) ∧
        Stands code (o + 1) (a.place (o + 1) n) := by
  rw [place, stands_cons]

theorem stands_branch {keeps : Bool} :
    Stands code o ((branch keeps a b).place o n) ↔
      code[o]? = some (.jumpTo (branchOp keeps) (o + 1 + a.size + 1)) ∧
      Stands code (o + 1) (a.place (o + 1) n) ∧
      code[o + 1 + a.size]? = some (.jumpTo .jump (o + 1 + a.size + 1 + b.size)) ∧
      Stands code (o + 1 + a.size + 1)
        (b.place (o + 1 + a.size + 1) (n + a.names.length)) := by
  rw [place, List.cons_append, stands_cons, stands_append, stands_cons, length_place]

theorem stands_cycle : Stands code o ((cycle a b).place o n) ↔
    Stands code o (a.place o n) ∧
    code[o + a.size]? = some (.jumpTo .jumpIfFalse (o + a.size + 1 + b.size + 1)) ∧
    Stands code (o + a.size + 1) (b.place (o + a.size + 1) (n + a.names.length)) ∧
    code[o + a.size + 1 + b.size]? = some (.jumpTo .jump o) := by
  rw [place, List.append_assoc, List.cons_append, stands_append, stands_cons, stands_append,
    stands_cons, length_place, length_place, stands_nil, and_true]

theorem stands_forever : Stands code o ((forever a).place o n) ↔
    Stands code o (a.place o n) ∧ code[o + a.size]? = some (.jumpTo .jump o) := by
  rw [place, stands_append, stands_cons, length_place, stands_nil, and_true]

/-- The segment stands at the offset, and its names have places from `low` up to `high`. -/
def Placed (s : Segment) (code : Array Instruction) (o low high : Nat) : Prop :=
  ∃ n, low ≤ n ∧ n + s.names.length ≤ high ∧ Stands code o (s.place o n)

theorem placed_self (h : Stands code o (a.place o n)) :
    a.Placed code o n (n + a.names.length) :=
  ⟨n, Nat.le_refl _, Nat.le_refl _, h⟩

theorem Placed.mono {low high low' high' : Nat} (h : a.Placed code o low high) (below : low' ≤ low)
    (above : high ≤ high') : a.Placed code o low' high' := by
  obtain ⟨n, from_low, to_high, stands⟩ := h
  exact ⟨n, by omega, by omega, stands⟩

end Segment

end StackScript
