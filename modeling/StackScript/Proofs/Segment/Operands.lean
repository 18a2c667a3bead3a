import StackScript.Proofs.Segment.Tree

/-!
# Operands

Each operation needs operands of certain kinds. Nothing in an instruction enforces them, but the
code of every tree has them. The code of an expression, or of a statement that does not need the
tree walker, moreover leaves nothing to it.
-/

namespace StackScript

/-- What an operand is, without its content. -/
inductive OperandKind where
  | count
  | flag
  | number
  | name
  | text
  | statement
  | function
  | jump
  | pending
  | misuse
  deriving DecidableEq, Repr

/-- The kind of the operand. -/
def Operand.kind : Operand → OperandKind
  | .count _ => .count
  | .flag _ => .flag
  | .number _ => .number
  | .name _ => .name
  | .text _ => .text
  | .statement _ => .statement
  | .function _ => .function
  | .jump _ => .jump
  | .pending => .pending
  | .misuse _ => .misuse

/-- The place of the name that the operand refers to, if it refers to one. -/
def Operand.handle? : Operand → Option Nat
  | .name index => some index
  | _ => none

/-- The places of the names that the instruction refers to, in either operand. -/
def Instruction.handles (i : Instruction) : List Nat :=
  (i.operand.bind Operand.handle?).toList ++ (i.extra.bind Operand.handle?).toList

/-- The kinds of the two operands that the operation needs. -/
def Op.operandKinds : Op → Option OperandKind × Option OperandKind
  | .pushNumber => (some .number, none)
  | .pushString => (some .text, none)
  | .pushRegExp => (some .text, some .text)
  | .pushFunction => (some .function, none)
  | .pushName | .loadName | .storeVar | .getMember | .setProperty => (some .name, none)
  | .resolveName => (some .name, some .flag)
  | .newArray | .call | .callRef | .construct | .constructRef => (some .count, none)
  | .jump | .jumpIfFalse | .jumpIfFalseOrPop | .jumpIfTrueOrPop => (some .jump, none)
  | .escape => (some .statement, none)
  | .throwMisuse => (some .misuse, none)
  | _ => (none, none)

namespace Instruction

/-- The instruction has the operands that its operation needs, and no others. -/
def HasOperands (i : Instruction) : Prop :=
  (i.operand.map Operand.kind, i.extra.map Operand.kind) = i.op.operandKinds

/-- An operation that needs an operand has one of the right kind. -/
theorem HasOperands.exists_operand {i : Instruction} {kind : OperandKind} (h : i.HasOperands)
    (needs : i.op.operandKinds.1 = some kind) :
    ∃ operand, i.operand = some operand ∧ operand.kind = kind :=
  Option.map_eq_some_iff.mp ((congrArg Prod.fst h).trans needs)

/-- An instruction that belongs to the code of an expression. -/
structure IsPlain (i : Instruction) : Prop where
  operands : i.HasOperands
  noEscape : i.op ≠ .escape

/-- A jump has its target as its operand. -/
theorem isPlain_jumpTo {op : Op} (jumps : op.isJump = true) (t : Nat) : (jumpTo op t).IsPlain := by
  cases op <;> cases jumps <;> exact ⟨rfl, by simp [jumpTo]⟩

end Instruction

theorem LogicalOperator.isJump_op (operator : LogicalOperator) : operator.op.isJump = true := by
  cases operator <;> rfl

namespace Segment

theorem isJump_branchOp (keeps : Bool) : (branchOp keeps).isJump = true := by
  cases keeps <;> rfl

/-- Every instruction of the segment has the property, wherever the segment is placed. -/
def Yields (P : Instruction → Prop) (s : Segment) : Prop :=
  ∀ o n, ∀ i ∈ s.place o n, P i

section Yields

variable {P : Instruction → Prop} {a b : Segment}

/-- A weaker property. -/
theorem Yields.mono {Q : Instruction → Prop} (h : a.Yields P) (le : ∀ i, P i → Q i) : a.Yields Q :=
  fun o n i hi => le i (h o n i hi)

/-- A single instruction. -/
theorem yields_plain {i : Instruction} {fixed : i.isFixed = true} (h : P i) :
    (plain i fixed).Yields P := by
  intro o n j hj
  rw [place, List.mem_singleton] at hj
  exact hj ▸ h

/-- An instruction on a name, whatever place the name gets. -/
theorem yields_named {op : Op} {text : String} {extra : Option Operand} {goesOn : op.goesOn = true}
    (h : ∀ n, P { op := op, operand := some (.name n), extra := extra }) :
    (named op text extra goesOn).Yields P := by
  intro o n j hj
  rw [place, List.mem_singleton] at hj
  exact hj ▸ h n

theorem yields_unused (texts : List String) : (unused texts).Yields P := by
  intro o n j hj
  cases hj

/-- Two segments one after the other. -/
theorem Yields.seq (h₁ : a.Yields P) (h₂ : b.Yields P) : (a.seq b).Yields P := by
  intro o n
  rw [place, List.forall_mem_append]
  exact ⟨h₁ o n, h₂ _ _⟩

variable (jumps : ∀ {op : Op}, op.isJump = true → ∀ t, P (.jumpTo op t))

include jumps

/-- The jump of a body that may be skipped is one of its instructions. -/
theorem Yields.skip (operator : LogicalOperator) (h : a.Yields P) : (skip operator a).Yields P := by
  intro o n
  rw [place, List.forall_mem_cons]
  exact ⟨jumps operator.isJump_op _, h _ _⟩

/-- So are the two jumps of a choice. -/
theorem Yields.branch (keeps : Bool) (h₁ : a.Yields P) (h₂ : b.Yields P) :
    (branch keeps a b).Yields P := by
  intro o n
  rw [place, List.forall_mem_append, List.forall_mem_cons, List.forall_mem_cons]
  exact ⟨⟨jumps (isJump_branchOp keeps) _, h₁ _ _⟩, jumps rfl _, h₂ _ _⟩

/-- So are the two jumps of a loop with a test. -/
theorem Yields.cycle (h₁ : a.Yields P) (h₂ : b.Yields P) : (cycle a b).Yields P := by
  intro o n
  rw [place, List.forall_mem_append, List.forall_mem_append, List.forall_mem_cons,
    List.forall_mem_singleton]
  exact ⟨⟨h₁ _ _, jumps rfl _, h₂ _ _⟩, jumps rfl _⟩

/-- So is the jump back of a loop without one. -/
theorem Yields.forever (h : a.Yields P) : (forever a).Yields P := by
  intro o n
  rw [place, List.forall_mem_append, List.forall_mem_singleton]
  exact ⟨h _ _, jumps rfl _⟩

end Yields

end Segment

open Segment Instruction

/-! ## Expressions -/

/-- An operation without operands. -/
theorem yields_op {o : Op} {h : o.goesOn = true} (bare : o.operandKinds = (none, none)) :
    (Segment.op o h).Yields IsPlain := by
  refine yields_plain ⟨bare.symm, ?_⟩
  rintro rfl
  cases bare

/-- An operation on a name. -/
theorem yields_onName {o : Op} {text : String} {h : o.goesOn = true}
    (named : o.operandKinds = (some .name, none)) : (onName o text h).Yields IsPlain := by
  refine yields_named fun n => ⟨named.symm, ?_⟩
  rintro rfl
  cases named

/-- An operation with a count. -/
theorem yields_counted {o : Op} {n : Nat} {h : o.goesOn = true}
    (counts : o.operandKinds = (some .count, none)) : (counted o n h).Yields IsPlain := by
  refine yields_plain ⟨counts.symm, ?_⟩
  rintro rfl
  cases counts

theorem yields_misuse (kind : Misuse) : (misuse kind).Yields IsPlain :=
  yields_plain ⟨rfl, by simp⟩

/-- No operator of two operands needs more than the stack. -/
theorem BinaryOperator.yields (operator : BinaryOperator) :
    (Segment.op operator.op operator.goesOn_op).Yields IsPlain :=
  yields_op (by cases operator <;> rfl)

theorem UpdateOperator.yields (operator : UpdateOperator) (before : Bool) :
    (Segment.op (operator.op before) (operator.goesOn_op before)).Yields IsPlain :=
  yields_op (by cases operator <;> cases before <;> rfl)

/-- A literal has the operands that its operation needs. -/
theorem Literal.yields (value : Literal) : value.segment.Yields IsPlain := by
  cases value with
  | boolean b => cases b <;> exact yields_op (h := rfl) rfl
  | null => exact yields_op (h := rfl) rfl
  | undefined => exact yields_op (h := rfl) rfl
  | _ => exact yields_plain ⟨rfl, by simp⟩

mutual

/-- The code of an expression has the operands that it needs, and does not escape. -/
theorem Expression.yields : (e : Expression) → e.segment.Yields IsPlain
  | .literal value => by
    rw [Expression.segment]
    exact value.yields
  | .name text => by
    rw [Expression.segment]
    exact yields_onName rfl
  | .thisValue => by
    rw [Expression.segment]
    exact yields_op rfl
  | .function .. => by
    rw [Expression.segment]
    exact yields_plain ⟨rfl, by simp⟩
  | .array elements => by
    rw [Expression.segment]
    exact (elements_yield elements).seq (yields_counted rfl)
  | .object properties => by
    rw [Expression.segment]
    exact (yields_op rfl).seq (properties_yield properties)
  | .member object name => by
    rw [Expression.segment]
    exact object.yields.seq (yields_onName rfl)
  | .index object key => by
    rw [Expression.segment]
    exact object.yields.seq (key.yields.seq (yields_op rfl))
  | .call callee arguments | .construct callee arguments => by
    rw [Expression.segment]
    split
    · exact (callee.reference_yields false).seq
        ((expressions_yield arguments).seq (yields_counted rfl))
    · exact callee.yields.seq ((expressions_yield arguments).seq (yields_counted rfl))
  | .unary .delete argument => by
    rw [Expression.segment]
    split
    · exact (argument.reference_yields false).seq (yields_op rfl)
    · exact argument.yields.seq (yields_misuse _)
  | .unary .typeof argument => by
    rw [Expression.segment]
    split
    · exact (argument.reference_yields false).seq (yields_op rfl)
    · exact argument.yields.seq (yields_op rfl)
  | .unary .minus argument | .unary .plus argument | .unary .not argument | .unary .bitNot argument
  | .unary .void argument => argument.yields.seq (yields_op rfl)
  | .update operator argument before => by
    rw [Expression.segment]
    split
    · exact (argument.reference_yields false).seq (operator.yields before)
    · exact argument.yields.seq (yields_misuse _)
  | .binary operator left right => by
    rw [Expression.segment]
    exact left.yields.seq (right.yields.seq operator.yields)
  | .logical operator left right => by
    rw [Expression.segment]
    exact left.yields.seq (right.yields.skip isPlain_jumpTo operator)
  | .assignment operator target value => by
    rw [Expression.segment]
    split
    · apply (target.reference_yields true).seq
      split
      · exact value.yields.seq (yields_op rfl)
      · rename_i binary _
        exact (yields_op rfl).seq
          (value.yields.seq (binary.yields.seq (yields_op rfl)))
    · exact target.yields.seq (yields_misuse _)
  | .conditional test consequent alternate => by
    rw [Expression.segment]
    exact test.yields.seq
      (consequent.yields.branch isPlain_jumpTo true ((yields_op rfl).seq alternate.yields))
  | .sequence expressions => by
    rw [Expression.segment]
    exact sequence_yields expressions

/-- So has the code of a place. -/
theorem Expression.reference_yields : (e : Expression) → ∀ create,
    (e.referenceSegment create).Yields IsPlain
  | .name text, create => by
    rw [Expression.referenceSegment]
    exact yields_named fun _ => ⟨rfl, by simp⟩
  | .member object name, create => by
    rw [Expression.referenceSegment]
    exact object.yields.seq ((yields_onName rfl).seq (yields_op rfl))
  | .index object key, create => by
    rw [Expression.referenceSegment]
    exact object.yields.seq (key.yields.seq (yields_op rfl))
  | .literal _, _ | .thisValue, _ | .function .., _ | .array _, _ | .object _, _ | .call .., _
  | .construct .., _ | .unary .., _ | .update .., _ | .binary .., _ | .logical .., _
  | .assignment .., _ | .conditional .., _ | .sequence _, _ => by
    rw [Expression.referenceSegment]
    · exact yields_unused []
    all_goals simp

theorem expressions_yield : (list : List Expression) → (expressionsSegment list).Yields IsPlain
  | [] => by
    rw [expressionsSegment]
    exact yields_unused []
  | value :: rest => by
    rw [expressionsSegment]
    exact value.yields.seq (expressions_yield rest)

theorem sequence_yields : (list : List Expression) → (sequenceSegment list).Yields IsPlain
  | [] => by
    rw [sequenceSegment]
    exact yields_op rfl
  | [value] => by
    rw [sequenceSegment]
    exact value.yields
  | value :: next :: rest => by
    rw [sequenceSegment]
    exact value.yields.seq ((yields_op rfl).seq (sequence_yields (next :: rest)))

theorem elements_yield : (list : List (Option Expression)) → (elementsSegment list).Yields IsPlain
  | [] => by
    rw [elementsSegment]
    exact yields_unused []
  | some value :: rest => by
    rw [elementsSegment]
    exact value.yields.seq (elements_yield rest)
  | none :: rest => by
    rw [elementsSegment]
    exact (yields_op rfl).seq (elements_yield rest)

theorem properties_yield : (list : List (Property Expression)) →
    (propertiesSegment list).Yields IsPlain
  | [] => by
    rw [propertiesSegment]
    exact yields_unused []
  | ⟨key, value⟩ :: rest => by
    rw [propertiesSegment]
    exact value.yields.seq ((yields_onName rfl).seq (properties_yield rest))

end

theorem declarators_yield : (list : List (Declarator Expression)) →
    (declaratorsSegment list).Yields IsPlain
  | [] => yields_op rfl
  | ⟨_, none⟩ :: rest => declarators_yield rest
  | ⟨_, some init⟩ :: rest =>
    init.yields.seq ((yields_onName rfl).seq (declarators_yield rest))

theorem LoopHead.yields (head : LoopHead Expression) : head.segment.Yields IsPlain := by
  cases head with
  | declaration declarators => exact declarators_yield declarators
  | expression value => exact value.yields

theorem dropped_yields {part : Option Segment} (h : ∀ a ∈ part, a.Yields IsPlain) :
    (droppedSegment part).Yields IsPlain := by
  cases part with
  | none => exact yields_unused []
  | some a => exact (h a rfl).seq (yields_op rfl)

theorem dropped_head_yields (init : Option (LoopHead Expression)) :
    (droppedSegment (init.map LoopHead.segment)).Yields IsPlain := by
  refine dropped_yields fun a ha => ?_
  obtain ⟨head, -, rfl⟩ := Option.map_eq_some_iff.mp ha
  exact head.yields

theorem dropped_value_yields (value : Option Expression) :
    (droppedSegment (value.map Expression.segment)).Yields IsPlain := by
  refine dropped_yields fun a ha => ?_
  obtain ⟨value, -, rfl⟩ := Option.map_eq_some_iff.mp ha
  exact value.yields

/-! ## Statements -/

/-- The instruction that leaves a statement to the tree walker. -/
def Instruction.handOver (tree : Statement) : Instruction :=
  { op := .escape, operand := some (.statement tree) }

section Statements

variable {P : Instruction → Prop} (plain : ∀ i, i.IsPlain → P i)

/-- A statement that is handed over is the operand of one instruction. -/
theorem handedOver_yields {tree : Statement} {needed : Bool} (needs : needed = true)
    (h : (∀ t, P (.handOver t)) ∨ needed = false) : (escape tree).Yields P :=
  yields_plain (h.resolve_right (by simp [needs]) tree)

/-- A statement without code of its own is handed over. -/
theorem foreign_yields {tree : Statement} (foreign : tree.isForeign = true)
    (h : (∀ t, P (.handOver t)) ∨ tree.needsWalker = false) : tree.segment.Yields P := by
  rw [Statement.segment_of_isForeign foreign]
  exact handedOver_yields (Statement.needsWalker_of_isForeign foreign) h

include plain

theorem jumpTo_of_plain {op : Op} (jumps : op.isJump = true) (t : Nat) : P (jumpTo op t) :=
  plain _ (isPlain_jumpTo jumps t)

mutual

/-- The code of a statement is like that of expressions, but for what is left to the tree walker. -/
theorem Statement.yields : (tree : Statement) →
    (∀ t, P (.handOver t)) ∨ tree.needsWalker = false → tree.segment.Yields P
  | .block body, h => by
    rw [Statement.needsWalker] at h
    rw [Statement.segment]
    exact block_yields body h
  | .expression value, _ => by
    rw [Statement.segment]
    exact value.yields.mono plain
  | .declaration declarators, _ => by
    rw [Statement.segment]
    exact (declarators_yield declarators).mono plain
  | .ifElse test consequent alternate, h => by
    rw [Statement.needsWalker, Bool.or_eq_false_iff] at h
    rw [Statement.segment]
    have first := consequent.yields (h.imp_right (·.1))
    have second := alternate_yields alternate (h.imp_right (·.2))
    exact (test.yields.mono plain).seq (first.branch (jumpTo_of_plain plain) false second)
  | .whileLoop test body, h => by
    rw [Statement.needsWalker] at h
    rw [Statement.segment]
    split
    · rename_i needs
      exact (yields_unused _).seq (handedOver_yields needs h)
    · rename_i needs
      have inner := body.yields (.inr (Bool.eq_false_iff.mpr needs))
      exact ((yields_op rfl).mono plain).seq ((test.yields.mono plain).cycle (jumpTo_of_plain plain)
        (((yields_op rfl).mono plain).seq inner))
  | .doWhile body test, h => by
    rw [Statement.needsWalker] at h
    rw [Statement.segment]
    split
    · rename_i needs
      exact (yields_unused _).seq (handedOver_yields needs h)
    · rename_i needs
      have inner := body.yields (.inr (Bool.eq_false_iff.mpr needs))
      exact (inner.seq (test.yields.mono plain)).cycle (jumpTo_of_plain plain)
        ((yields_op rfl).mono plain)
  | .forLoop init test update body, h => by
    rw [Statement.needsWalker] at h
    rw [Statement.segment]
    split
    · rename_i needs
      exact (yields_unused _).seq (handedOver_yields needs h)
    · rename_i needs
      have inner := body.yields (.inr (Bool.eq_false_iff.mpr needs))
      have round := ((yields_op (o := .pop) (h := rfl) rfl).mono plain).seq
        (inner.seq ((dropped_value_yields update).mono plain))
      refine ((dropped_head_yields init).mono plain).seq (((yields_op rfl).mono plain).seq ?_)
      cases test with
      | some test => exact (test.yields.mono plain).cycle (jumpTo_of_plain plain) round
      | none => exact round.forever (jumpTo_of_plain plain)
  | .empty, _ => by
    rw [Statement.segment]
    exact (yields_op rfl).mono plain
  | .forIn .., h | .ret .., h | .breakTo .., h | .continueTo .., h | .throw .., h
  | .tryCatch .., h | .switch .., h | .withObject .., h | .labeled .., h
  | .function .., h => foreign_yields rfl h

/-- Each of the statements, and what drops the values between them. -/
theorem block_yields : (body : List Statement) →
    (∀ t, P (.handOver t)) ∨ blockNeedsWalker body = false → (blockSegment body).Yields P
  | [], _ => by
    rw [blockSegment]
    exact (yields_op rfl).mono plain
  | [tree], h => by
    rw [blockNeedsWalker, Bool.or_eq_false_iff] at h
    rw [blockSegment]
    exact tree.yields (h.imp_right (·.1))
  | tree :: next :: rest, h => by
    rw [blockNeedsWalker, Bool.or_eq_false_iff] at h
    rw [blockSegment]
    have first := tree.yields (h.imp_right (·.1))
    exact first.seq (((yields_op rfl).mono plain).seq
      (block_yields (next :: rest) (h.imp_right (·.2))))

theorem alternate_yields : (alternate : Option Statement) →
    (∀ t, P (.handOver t)) ∨ alternateNeedsWalker alternate = false →
      (alternateSegment alternate).Yields P
  | some tree, h => by
    rw [alternateNeedsWalker] at h
    rw [alternateSegment]
    exact tree.yields h
  | none, _ => by
    rw [alternateSegment]
    exact (yields_op rfl).mono plain

end

end Statements

end StackScript
