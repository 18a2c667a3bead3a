import StackScript.Compile.CodeUnit
import StackScript.Proofs.Segment.Operands

/-!
# Two ways of compiling, side by side

Compiling puts single instructions together by a few control structures, each with its own jumps.
Two assemblers do the same in two ways. A relation between the two ways that holds of single
instructions, and that the control structures keep, holds between the two codes of every tree. No
offset and no place of a name passes from one part of the code to another, so that the relation may
be about two drafts in which the code stands at different offsets.
-/

namespace StackScript

open Compile

namespace Assembler

variable {ε σ : Type}

/-- The relation holds between the code of expressions, lowered and compiled: it holds of single
    steps, and is kept when they are put together. -/
structure Straight (s : Assembler ε σ) (R : EStateM ε σ Unit → Compile Unit → Prop) : Prop where
  nothing : R (pure ()) (pure ())
  seq : ∀ {first second : EStateM ε σ Unit} {first' second' : Compile Unit},
    R first first' → R second second' → R (do first; second) (do first'; second')
  emit : ∀ {i : Instruction}, i.isFixed = true → i.handles = [] → R (s.emit i) (Compile.emit i)
  named : ∀ {op : Op} (text : String) (extra : Option Operand),
    op.goesOn = true → extra.bind Operand.handle? = none →
    R (s.emitName op text extra) (do
      let n ← Compile.intern text
      Compile.emit { op := op, operand := some (.name n), extra := extra })
  copied : ∀ (text : String) {rest : String → EStateM ε σ Unit} {rest' : String → Compile Unit},
    (∀ copied, R (rest copied) (rest' copied)) →
      R (s.copy text >>= rest) (Compile.copy text >>= rest')
  overflow : R s.overflow (throw (.outOfMemory .instructions))
  skip : ∀ {op : Op} {body : EStateM ε σ Unit} {body' : Compile Unit}, op.isJump = true →
    R body body' →
    R (do
      let toEnd ← s.reserveJump op
      body
      s.patchJump toEnd) (do
      let toEnd ← Compile.reserveJump op
      body'
      Compile.patchJump toEnd)
  branch :
    ∀ (op : Op) {consequent alternate : EStateM ε σ Unit} {consequent' alternate' : Compile Unit},
    op.isJump = true → R consequent consequent' → R alternate alternate' →
    R (do
      let toAlternate ← s.reserveJump op
      consequent
      let toEnd ← s.reserveJump .jump
      s.patchJump toAlternate
      alternate
      s.patchJump toEnd) (do
      let toAlternate ← Compile.reserveJump op
      consequent'
      let toEnd ← Compile.reserveJump .jump
      Compile.patchJump toAlternate
      alternate'
      Compile.patchJump toEnd)

/-- The relation is kept by the code of rounds as well. -/
structure Cyclic (s : Assembler ε σ) (R : EStateM ε σ Unit → Compile Unit → Prop) : Prop
    extends s.Straight R where
  cycle : ∀ {test body : EStateM ε σ Unit} {test' body' : Compile Unit}, R test test' →
    R body body' →
    R (do
      let start ← s.position
      test
      let toEnd ← s.reserveJump .jumpIfFalse
      body
      s.jumpBack .jump start
      s.patchJump toEnd) (do
      let start ← Compile.position
      test'
      let toEnd ← Compile.reserveJump .jumpIfFalse
      body'
      Compile.emitWith .jump (.jump start)
      Compile.patchJump toEnd)
  forever : ∀ {body : EStateM ε σ Unit} {body' : Compile Unit}, R body body' →
    R (do
      let start ← s.position
      body
      s.jumpBack .jump start) (do
      let start ← Compile.position
      body'
      Compile.emitWith .jump (.jump start))

/-- The relation holds between all that is lowered and compiled. -/
structure Structured (s : Assembler ε σ) (R : EStateM ε σ Unit → Compile Unit → Prop) : Prop
    extends s.Cyclic R where
  report : ∀ event, R (s.report event) (Compile.report event)
  escape : ∀ tree, R (s.escape tree) (Compile.escape tree)
  loop : ∀ tree {body : EStateM ε σ Unit} {body' : Compile Unit}, R body body' →
    R (s.loop tree body) (Compile.loop tree body')
  ret : R (s.emitOp .ret) (Compile.emitOp .ret)

namespace Straight

variable {s : Assembler ε σ} {R : EStateM ε σ Unit → Compile Unit → Prop} (parts : s.Straight R)

include parts

/-- An operation alone. -/
theorem emitOp (op : Op) (h : op.goesOn = true) : R (s.emitOp op) (Compile.emitOp op) :=
  parts.emit (by simp [Instruction.isFixed, h]) rfl

theorem emitName {op : Op} (text : String) (h : op.goesOn = true) :
    R (s.emitName op text) (Compile.emitName op text) :=
  parts.named text none h rfl

/-- An operation with a count, or none if the count does not fit into a word. -/
theorem emitCount {op : Op} (n : Nat) (h : op.goesOn = true) :
    R (s.emitCount op n) (Compile.emitCount op n) := by
  unfold Compile.emitCount Assembler.emitCount
  split
  · exact parts.emit (by simp [Instruction.isFixed, h]) rfl
  · exact parts.overflow

theorem misuse (kind : Misuse) : R (s.misuse kind) (Compile.misuse kind) :=
  parts.emit rfl rfl

/-- A part, and an operation behind it. -/
theorem closing {step : EStateM ε σ Unit} {step' : Compile Unit} (h : R step step') {op : Op}
    (goesOn : op.goesOn = true) :
    R (do step; s.emitOp op) (do step'; Compile.emitOp op) :=
  parts.seq h (parts.emitOp op goesOn)

end Straight

end Assembler

section Expressions

variable {ε σ : Type} {s : Assembler ε σ} {R : EStateM ε σ Unit → Compile Unit → Prop}
variable (parts : s.Straight R)

include parts

/-- A literal is related, whatever the assembler. -/
theorem Literal.lower_related (value : Literal) : R (value.lower s) value.compile := by
  cases value with
  | number value => exact parts.emit rfl rfl
  | string text => exact parts.copied text fun _ => parts.emit rfl rfl
  | regExp pattern flags =>
    exact parts.copied pattern fun _ => parts.copied flags fun _ => parts.emit rfl rfl
  | boolean value => cases value <;> exact parts.emit rfl rfl
  | null => exact parts.emit rfl rfl
  | undefined => exact parts.emit rfl rfl

mutual

/-- Each kind of expression is made of straight parts. -/
theorem Expression.lower_related : (e : Expression) → R (e.lower s) e.compile
  | .literal value => value.lower_related parts
  | .name text => parts.emitName text rfl
  | .thisValue => parts.emit rfl rfl
  | .function .. => parts.emit rfl rfl
  | .array elements => parts.seq (elements_related elements) (parts.emitCount _ rfl)
  | .object properties => parts.seq (parts.emitOp _ rfl) (properties_related properties)
  | .member object name => parts.seq object.lower_related (parts.emitName name rfl)
  | .index object key => parts.seq object.lower_related (parts.closing key.lower_related rfl)
  | .call callee arguments | .construct callee arguments => by
    have applied {op : Op} (h : op.goesOn = true) :=
      parts.seq (expressions_related arguments) (parts.emitCount arguments.length h)
    rw [Expression.lower, Expression.compile, Expression.lower]
    split
    · exact parts.seq (callee.lowerReference_related false) (applied rfl)
    · exact parts.seq callee.lower_related (applied rfl)
  | .unary .delete argument => by
    rw [Expression.lower, Expression.compile, Expression.lower]
    split
    · exact parts.closing (argument.lowerReference_related false) rfl
    · exact parts.seq argument.lower_related (parts.misuse _)
  | .unary .typeof argument => by
    rw [Expression.lower, Expression.compile, Expression.lower]
    split
    · exact parts.closing (argument.lowerReference_related false) rfl
    · exact parts.closing argument.lower_related rfl
  | .unary .minus argument | .unary .plus argument | .unary .not argument | .unary .bitNot argument
  | .unary .void argument => parts.closing argument.lower_related rfl
  | .update operator argument before => by
    rw [Expression.lower, Expression.compile, Expression.lower]
    split
    · exact parts.closing (argument.lowerReference_related false) (operator.goesOn_op before)
    · exact parts.seq argument.lower_related (parts.misuse _)
  | .binary operator left right =>
    parts.seq left.lower_related (parts.closing right.lower_related operator.goesOn_op)
  | .logical operator left right =>
    parts.seq left.lower_related (parts.skip operator.isJump_op right.lower_related)
  | .assignment operator target value => by
    rw [Expression.lower, Expression.compile, Expression.lower]
    split
    · apply parts.seq (target.lowerReference_related true)
      cases operator.binary? with
      | none => exact parts.closing value.lower_related rfl
      | some binary =>
        exact parts.seq (parts.emitOp _ rfl)
          (parts.seq value.lower_related (parts.closing (parts.emitOp _ binary.goesOn_op) rfl))
    · exact parts.seq target.lower_related (parts.misuse _)
  | .conditional test consequent alternate => by
    have choice := parts.branch .jumpIfFalseOrPop rfl consequent.lower_related
      (parts.seq (parts.emitOp .pop rfl) alternate.lower_related)
    simp only [bind_assoc] at choice
    rw [Expression.lower, Expression.compile, Expression.lower]
    exact parts.seq test.lower_related choice
  | .sequence expressions => sequence_related expressions

/-- So is each place. -/
theorem Expression.lowerReference_related : (e : Expression) → (create : Bool) →
    R (e.lowerReference s create) (e.compileReference create)
  | .name text, _ => parts.named text _ rfl rfl
  | .member object name, _ =>
    parts.seq object.lower_related (parts.closing (parts.emitName name rfl) rfl)
  | .index object key, _ => parts.seq object.lower_related (parts.closing key.lower_related rfl)
  | .literal _, _ | .thisValue, _ | .function .., _ | .array _, _ | .object _, _ | .call .., _
  | .construct .., _ | .unary .., _ | .update .., _ | .binary .., _ | .logical .., _
  | .assignment .., _ | .conditional .., _ | .sequence _, _ => parts.nothing

theorem expressions_related : (list : List Expression) →
    R (lowerExpressions s list) (compileExpressions list)
  | [] => parts.nothing
  | value :: rest => parts.seq value.lower_related (expressions_related rest)

theorem sequence_related : (list : List Expression) →
    R (lowerSequence s list) (compileSequence list)
  | [] => parts.emitOp _ rfl
  | [value] => value.lower_related
  | value :: next :: rest =>
    parts.seq value.lower_related (parts.seq (parts.emitOp _ rfl) (sequence_related (next :: rest)))

theorem elements_related : (list : List (Option Expression)) →
    R (lowerElements s list) (compileElements list)
  | [] => parts.nothing
  | some value :: rest => parts.seq value.lower_related (elements_related rest)
  | none :: rest => parts.seq (parts.emitOp _ rfl) (elements_related rest)

theorem properties_related : (list : List (Property Expression)) →
    R (lowerProperties s list) (compileProperties list)
  | [] => parts.nothing
  | ⟨key, value⟩ :: rest =>
    parts.seq value.lower_related
      (parts.seq (parts.emitName key.text rfl) (properties_related rest))

end

theorem declarators_related : (list : List (Declarator Expression)) →
    R (lowerDeclarators s list) (compileDeclarators list)
  | [] => parts.emitOp _ rfl
  | ⟨_, none⟩ :: rest => declarators_related rest
  | ⟨name, some init⟩ :: rest =>
    parts.seq (init.lower_related parts)
      (parts.seq (parts.emitName name rfl) (declarators_related rest))

theorem LoopHead.lower_related (head : LoopHead Expression) : R (head.lower s) head.compile := by
  cases head with
  | declaration declarators => exact declarators_related parts declarators
  | expression value => exact value.lower_related parts

theorem dropped_related (value : Option Expression) :
    R (lowerDropped s value) (compileDropped value) := by
  cases value with
  | none => exact parts.nothing
  | some value => exact parts.closing (value.lower_related parts) rfl

end Expressions

section Loops

variable {ε σ : Type} {s : Assembler ε σ} {R : EStateM ε σ Unit → Compile Unit → Prop}
variable (parts : s.Cyclic R) (body : EStateM ε σ Unit) {body' : Compile Unit}

include parts

/-- The rounds of a `for` are made of a loop and straight parts. -/
theorem rounds_related (test update : Option Expression) (inner : R body body') :
    R (lowerRounds s test update body) (lowerRounds .direct test update body') := by
  have round :=
    parts.seq (parts.emitOp .pop rfl) (parts.seq inner (dropped_related parts.toStraight update))
  apply parts.seq (parts.emitOp _ rfl)
  cases test with
  | some test =>
    have rounds := parts.cycle (test.lower_related parts.toStraight) round
    simp only [bind_assoc] at rounds
    exact rounds
  | none =>
    have rounds := parts.forever round
    simp only [bind_assoc] at rounds
    exact rounds

/-- So is the whole of it. -/
theorem for_related (init : Option (LoopHead Expression)) (test update : Option Expression)
    (inner : R body body') :
    R (lowerFor s init test update body) (lowerFor .direct init test update body') := by
  have rounds := rounds_related parts body test update inner
  cases init with
  | none =>
    simp only [lowerFor]
    exact rounds
  | some head =>
    simp only [lowerFor]
    exact parts.seq (head.lower_related parts.toStraight) (parts.seq (parts.emitOp _ rfl) rounds)

end Loops

section Statements

variable {ε σ : Type} {s : Assembler ε σ} {R : EStateM ε σ Unit → Compile Unit → Prop}
variable (parts : s.Structured R)

include parts

mutual

/-- Each kind of statement is made of parts that are related. -/
theorem Statement.lower_related : (tree : Statement) → R (tree.lower s) tree.compile
  | .block body => block_related body
  | .expression value => value.lower_related parts.toStraight
  | .declaration declarators => declarators_related parts.toStraight declarators
  | .ifElse test consequent alternate =>
    parts.seq (test.lower_related parts.toStraight)
      (parts.branch .jumpIfFalse rfl consequent.lower_related (alternate_related alternate))
  | .whileLoop test body => by
    have rounds := parts.cycle (test.lower_related parts.toStraight)
      (parts.seq (parts.emitOp .pop rfl) body.lower_related)
    simp only [bind_assoc] at rounds
    rw [Statement.lower, Statement.compile, Statement.lower]
    exact parts.loop _ (parts.seq (parts.emitOp _ rfl) rounds)
  | .doWhile body test => by
    have rounds := parts.cycle (parts.seq body.lower_related (test.lower_related parts.toStraight))
      (parts.emitOp .pop rfl)
    simp only [bind_assoc] at rounds
    rw [Statement.lower, Statement.compile, Statement.lower]
    exact parts.loop _ rounds
  | .forLoop init test update body => by
    rw [Statement.lower, Statement.compile, Statement.lower]
    exact parts.loop _ (for_related parts.toCyclic _ init test update body.lower_related)
  | .empty => parts.emitOp _ rfl
  | .forIn .. | .ret .. | .breakTo .. | .continueTo .. | .throw .. | .tryCatch .. | .switch ..
  | .withObject .. | .labeled .. | .function .. => parts.escape _

theorem block_related : (body : List Statement) → R (lowerBlock s body) (compileBlock body)
  | [] => parts.emitOp _ rfl
  | [tree] => tree.lower_related
  | tree :: next :: rest =>
    parts.seq tree.lower_related (parts.seq (parts.emitOp _ rfl) (block_related (next :: rest)))

theorem alternate_related : (alternate : Option Statement) →
    R (lowerAlternate s alternate) (compileAlternate alternate)
  | some tree => tree.lower_related
  | none => parts.emitOp _ rfl

end

/-- So is all that an entry point is compiled from. -/
theorem Source.lower_related (source : Source) : R (source.lower s) source.compile :=
  match source with
  | .expression tree => tree.lower_related parts.toStraight
  | .statements [] _ => block_related parts []
  | .statements [tree] _ => tree.lower_related parts
  | .statements (_ :: _ :: _) true => block_related parts _
  | .statements (first :: _ :: _) false => parts.seq (parts.report _) (first.lower_related parts)

/-- The code of an entry point, with the return behind it. -/
theorem Source.entry_related (source : Source) :
    R (do source.lower s; s.emitOp .ret) (do source.compile; emitOp .ret) :=
  parts.seq (source.lower_related parts) parts.ret

end Statements

end StackScript
