import StackScript.Code.Instruction

/-!
# The stack check

Whether code can be run from an offset without losing track of its stack. Every jump in the code has
to know where it goes. From the offset on, each instruction that can be reached must be reached with
one depth of the stack, find as many slots as it takes, and, if it returns, leave exactly one.

The check follows both ways of a conditional jump. It looks first at what follows the jump, and last
at what was put off longest.
-/

namespace StackScript

/-- Why code is refused. -/
inductive Flaw where
  | badEntry (start length : Nat)
  | unpatchedJump (offset : Nat)
  | targetOutOfRange (offset target length : Nat)
  | depthMismatch (offset expected found : Nat)
  | underflow (offset : Nat)
  | unbalanced (offset depth : Nat)
  | fellOffEnd
  | malformedOperand (offset : Nat)
  deriving DecidableEq, Repr

/-- The words for the flaw. -/
def Flaw.message : Flaw → String
  | .badEntry start length =>
    s!"entry offset {start} is outside the buffer (length {length})"
  | .unpatchedJump offset => s!"jump at {offset} was never patched"
  | .targetOutOfRange offset target length =>
    s!"jump at {offset} targets {target}, past the buffer end {length}"
  | .depthMismatch offset expected found =>
    s!"inconsistent stack depth at {offset}: {expected} vs {found}"
  | .underflow offset => s!"stack underflow at {offset}"
  | .unbalanced offset depth => s!"return at {offset} leaves {depth} values on the stack"
  | .fellOffEnd => "control falls off the end of the buffer"
  | .malformedOperand offset => s!"malformed operand at {offset}"

/-- What the check found out about the instructions that can be reached. -/
structure StackReport where
  /-- The greatest depth before or after an instruction. -/
  maxDepth : Nat := 0
  /-- The number of instructions. -/
  reachable : Nat := 0
  /-- The number of returns among them. -/
  returns : Nat := 0
  deriving DecidableEq, Repr

namespace StackCheck

/-- The target of the jump at an offset, in code of the given length. The end of the code may be
    a target. -/
def target (length offset : Nat) (i : Instruction) : Except Flaw Nat :=
  match i.operand with
  | some (.jump target) =>
    if target ≤ length then .ok target else .error (.targetOutOfRange offset target length)
  | some .pending => .error (.unpatchedJump offset)
  | _ => .error (.malformedOperand offset)

/-- Checks the jumps among the given instructions, the first of which stands at an offset. -/
def jumpsFrom (length : Nat) : Nat → List Instruction → Except Flaw Unit
  | _, [] => .ok ()
  | offset, i :: rest =>
    if i.op.isJump then
      match target length offset i with
      | .ok _ => jumpsFrom length (offset + 1) rest
      | .error flaw => .error flaw
    else jumpsFrom length (offset + 1) rest

/-- Every jump in the code knows its target. -/
def jumps (code : Array Instruction) : Except Flaw Unit :=
  jumpsFrom code.size 0 code.toList

/-- An offset, and the depth of the stack before the instruction there. -/
structure Spot where
  offset : Nat
  depth : Nat
  deriving DecidableEq, Repr

/-- The depth of the stack when the instruction has been carried out and control goes on. -/
def depthAfter (depth : Nat) (i : Instruction) : Nat :=
  depth - i.effect.pops + i.effect.pushes

/-- Where control can go from an instruction, in the order in which that is looked at. -/
def next (length : Nat) (spot : Spot) (i : Instruction) : Except Flaw (List Spot) :=
  let after := depthAfter spot.depth i
  let onward : Spot := ⟨spot.offset + 1, after⟩
  if spot.depth < i.effect.pops then .error (.underflow spot.offset)
  else match i.op with
    | .ret => if spot.depth = 1 then .ok [] else .error (.unbalanced spot.offset spot.depth)
    | .jump => (target length spot.offset i).map fun t => [⟨t, after⟩]
    | .jumpIfFalse => (target length spot.offset i).map fun t => [onward, ⟨t, after⟩]
    | .jumpIfFalseOrPop | .jumpIfTrueOrPop =>
      (target length spot.offset i).map fun t => [onward, ⟨t, spot.depth⟩]
    | _ => .ok [onward]

/-- The report with one more instruction. -/
def count (report : StackReport) (depth : Nat) (i : Instruction) : StackReport where
  maxDepth := max (max report.maxDepth depth) (depthAfter depth i)
  reachable := report.reachable + 1
  returns := if i.op = .ret then report.returns + 1 else report.returns

/-- Looks at the given spots and at all that follows from them. The depths of instructions that have
    been looked at are known. -/
def explore (code : Array Instruction) (known : Array (Option Nat)) (report : StackReport)
    (work : List Spot) : Except Flaw StackReport :=
  match work with
  | [] => .ok report
  | spot :: work =>
    match code[spot.offset]? with
    | none => .error .fellOffEnd
    | some i =>
      if h : spot.offset < known.size then
        match hd : known[spot.offset] with
        | some depth =>
          if depth = spot.depth then explore code known report work
          else .error (.depthMismatch spot.offset depth spot.depth)
        | none =>
          match next code.size spot i with
          | .error flaw => .error flaw
          | .ok spots =>
            explore code (known.set spot.offset (some spot.depth)) (count report spot.depth i)
              (spots ++ work)
      else .error .fellOffEnd
termination_by (known.count none, work.length)
decreasing_by
  · exact Prod.Lex.right _ (by simp)
  · apply Prod.Lex.left
    have hpos : 0 < known.count none := Array.count_pos_iff.mpr (hd ▸ Array.getElem_mem h)
    have hold : ((none : Option Nat) == none) = true := rfl
    have hnew : (some spot.depth == none) = false := rfl
    rw [Array.count_set h, hd]
    simp only [hold, hnew, if_true, Bool.false_eq_true, if_false]
    omega

/-- Checks the code from an offset. -/
def run (code : Array Instruction) (start : Nat) : Except Flaw StackReport :=
  if code.size ≤ start then .error (.badEntry start code.size)
  else
    match jumps code with
    | .error flaw => .error flaw
    | .ok () => explore code (Array.replicate code.size none) {} [⟨start, 0⟩]

end StackCheck

end StackScript
