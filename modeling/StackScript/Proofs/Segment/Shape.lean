import StackScript.Proofs.Segment.Tree

/-!
# Shapes of the stack

Values and references share one stack. What kinds of slots an instruction takes and gives is told by
its operation, and the code of each tree, entered with any stack, leaves one more value on it:
references stand on the stack only inside of the code that made them.
-/

namespace StackScript

/-- What a slot of the stack holds. -/
inductive SlotKind where
  | value
  | reference
  deriving DecidableEq, Repr

/-- The kinds of the slots, the topmost first. -/
abbrev Shape := List SlotKind

namespace Instruction

/-- The kinds of slots that the instruction takes, the topmost first. -/
def takes (i : Instruction) : Shape :=
  match i.op with
  | .pushUndefined | .pushNull | .pushTrue | .pushFalse | .pushNumber | .pushString
  | .pushRegExp | .pushThis | .pushName | .pushFunction => []
  | .loadName | .resolveName | .newObject | .jump | .escape => []
  | .pop | .storeVar | .getMember | .throwMisuse | .ret => [.value]
  | .jumpIfFalse | .jumpIfFalseOrPop | .jumpIfTrueOrPop => [.value]
  | .neg | .plus | .not | .bitNot | .typeOf | .void => [.value]
  | .resolveIndex | .getIndex | .setProperty => [.value, .value]
  | .add | .sub | .mul | .div | .mod | .shl | .shr | .ushr | .bitAnd | .bitOr | .bitXor
  | .eq | .ne | .strictEq | .strictNe | .lt | .le | .gt | .ge | .isIn | .instanceOf =>
    [.value, .value]
  | .assign => [.value, .reference]
  | .deref | .typeOfRef | .delete | .preInc | .preDec | .postInc | .postDec => [.reference]
  | .newArray => .replicate i.count .value
  | .call | .construct => .replicate i.count .value ++ [.value]
  | .callRef | .constructRef => .replicate i.count .value ++ [.reference]

/-- The kinds of slots that the instruction puts in their place, the topmost first. -/
def gives (i : Instruction) : Shape :=
  match i.op with
  | .pop | .storeVar | .jump | .jumpIfFalse | .jumpIfFalseOrPop | .jumpIfTrueOrPop | .ret => []
  | .resolveName | .resolveIndex => [.reference]
  -- The place stays below the value that was read from it.
  | .deref => [.value, .reference]
  | _ => [.value]

/-- The effect of an instruction is the number of slots that it takes and gives. -/
theorem effect_eq (i : Instruction) : i.effect = ⟨i.takes.length, i.gives.length⟩ := by
  obtain ⟨op, operand, extra⟩ := i
  cases op <;> simp [effect, takes, gives]

/-- The instruction leads from one shape to another. -/
def Turns (i : Instruction) (s s' : Shape) : Prop :=
  ∃ rest, s = i.takes ++ rest ∧ s' = i.gives ++ rest

end Instruction

namespace Segment

/-- The segment leads from one shape to another, on each way through it. Nothing is said about what
    follows a segment that is never left. -/
def Fits : Segment → Shape → Shape → Prop
  | .plain i _, s, s' => i.Turns s s'
  | .named op _ extra _, s, s' =>
    ∀ n, Instruction.Turns { op := op, operand := some (.name n), extra := extra } s s'
  | .unused _, s, s' => s' = s
  | .seq first second, s, s' => ∃ mid, first.Fits s mid ∧ second.Fits mid s'
  | .skip _ body, s, s' => ∃ rest, s = .value :: rest ∧ s' = s ∧ body.Fits rest s'
  | .branch keeps consequent alternate, s, s' =>
    ∃ rest, s = .value :: rest ∧ consequent.Fits rest s' ∧
      alternate.Fits (if keeps then s else rest) s'
  | .cycle test body, s, s' => test.Fits s (.value :: s') ∧ body.Fits s' s
  | .forever body, s, _ => body.Fits s s

variable {s s' : Shape} {a b : Segment}

/-- Two segments with the same shape between them. -/
theorem Fits.seq {mid : Shape} (h₁ : a.Fits s mid) (h₂ : b.Fits mid s') : (a.seq b).Fits s s' :=
  ⟨mid, h₁, h₂⟩

theorem fits_nothing : nothing.Fits s s :=
  rfl

/-- A value below the values that follow. -/
theorem Fits.values {n : Nat} (h₁ : a.Fits s (.value :: s))
    (h₂ : ∀ s, b.Fits s (.replicate n .value ++ s)) :
    (a.seq b).Fits s (.replicate (n + 1) .value ++ s) := by
  refine h₁.seq ?_
  rw [List.replicate_succ', List.append_assoc]
  exact h₂ (.value :: s)

end Segment

open Segment

section Operators

variable (s : Shape)

/-- Two values are replaced by one. -/
theorem BinaryOperator.fits (operator : BinaryOperator) (h : operator.op.goesOn = true) :
    (Segment.op operator.op h).Fits (.value :: .value :: s) (.value :: s) :=
  ⟨s, by cases operator <;> rfl, by cases operator <;> rfl⟩

/-- A reference is replaced by a value. -/
theorem UpdateOperator.fits (operator : UpdateOperator) (before : Bool)
    (h : (operator.op before).goesOn = true) :
    (Segment.op (operator.op before) h).Fits (.reference :: s) (.value :: s) := by
  cases operator <;> cases before <;> exact ⟨s, rfl, rfl⟩

/-- What is counted is taken, and one slot more. -/
theorem fits_counted {o : Op} (h : o.goesOn = true) {n : Nat} {kind : SlotKind}
    (takes : Instruction.takes { op := o, operand := some (.count n) } =
      .replicate n .value ++ [kind])
    (gives : Instruction.gives { op := o, operand := some (.count n) } = [.value]) :
    (counted o n h).Fits (.replicate n .value ++ kind :: s) (.value :: s) :=
  ⟨s, by rw [takes, List.append_assoc]; rfl, by rw [gives]; rfl⟩

end Operators

theorem Literal.fits (value : Literal) (s : Shape) : value.segment.Fits s (.value :: s) := by
  cases value with
  | boolean b => cases b <;> exact ⟨s, rfl, rfl⟩
  | _ => exact ⟨s, rfl, rfl⟩

mutual

/-- The code of an expression leaves one more value. -/
theorem Expression.fits : (e : Expression) → ∀ s, e.segment.Fits s (.value :: s)
  | .literal value, s => by
    rw [Expression.segment]
    exact value.fits s
  | .name text, s => by
    rw [Expression.segment]
    exact fun _ => ⟨s, rfl, rfl⟩
  | .thisValue, s => by
    rw [Expression.segment]
    exact ⟨s, rfl, rfl⟩
  | .function .., s => by
    rw [Expression.segment]
    exact ⟨s, rfl, rfl⟩
  | .array elements, s => by
    rw [Expression.segment]
    exact (elements_fit elements s).seq ⟨s, rfl, rfl⟩
  | .object properties, s => by
    rw [Expression.segment]
    exact Fits.seq ⟨s, rfl, rfl⟩ (properties_fit properties s)
  | .member object name, s => by
    rw [Expression.segment]
    exact (object.fits s).seq fun _ => ⟨s, rfl, rfl⟩
  | .index object key, s => by
    rw [Expression.segment]
    exact (object.fits s).seq ((key.fits _).seq ⟨s, rfl, rfl⟩)
  | .call callee arguments, s | .construct callee arguments, s => by
    rw [Expression.segment]
    split
    · exact (callee.reference_fits ‹_› false s).seq
        ((expressions_fit arguments _).seq (fits_counted s _ rfl rfl))
    · exact (callee.fits s).seq ((expressions_fit arguments _).seq (fits_counted s _ rfl rfl))
  | .unary .delete argument, s | .unary .typeof argument, s => by
    rw [Expression.segment]
    split
    · exact (argument.reference_fits ‹_› false s).seq ⟨s, rfl, rfl⟩
    · exact (argument.fits s).seq ⟨s, rfl, rfl⟩
  | .unary .minus argument, s | .unary .plus argument, s | .unary .not argument, s
  | .unary .bitNot argument, s | .unary .void argument, s =>
    (argument.fits s).seq ⟨s, rfl, rfl⟩
  | .update operator argument before, s => by
    rw [Expression.segment]
    split
    · exact (argument.reference_fits ‹_› false s).seq (operator.fits s before _)
    · exact (argument.fits s).seq ⟨s, rfl, rfl⟩
  | .binary operator left right, s => by
    rw [Expression.segment]
    exact (left.fits s).seq ((right.fits _).seq (operator.fits s _))
  | .logical operator left right, s => by
    rw [Expression.segment]
    exact (left.fits s).seq ⟨s, rfl, rfl, right.fits s⟩
  | .assignment operator target value, s => by
    rw [Expression.segment]
    split
    · apply (target.reference_fits ‹_› true s).seq
      split
      · exact (value.fits _).seq ⟨s, rfl, rfl⟩
      · rename_i binary _
        exact Fits.seq ⟨s, rfl, rfl⟩
          ((value.fits _).seq ((binary.fits _ _).seq ⟨s, rfl, rfl⟩))
    · exact (target.fits s).seq ⟨s, rfl, rfl⟩
  | .conditional test consequent alternate, s => by
    rw [Expression.segment]
    exact (test.fits s).seq
      ⟨s, rfl, consequent.fits s, Fits.seq ⟨s, rfl, rfl⟩ (alternate.fits s)⟩
  | .sequence expressions, s => by
    rw [Expression.segment]
    exact sequence_fits expressions s

/-- The code of a place leaves a reference. -/
theorem Expression.reference_fits : (e : Expression) → e.isReference = true →
    ∀ create s, (e.referenceSegment create).Fits s (.reference :: s)
  | .name text, _, create, s => by
    rw [Expression.referenceSegment]
    exact fun _ => ⟨s, rfl, rfl⟩
  | .member object name, _, create, s => by
    rw [Expression.referenceSegment]
    exact (object.fits s).seq (Fits.seq (fun _ => ⟨_, rfl, rfl⟩) ⟨s, rfl, rfl⟩)
  | .index object key, _, create, s => by
    rw [Expression.referenceSegment]
    exact (object.fits s).seq ((key.fits _).seq ⟨s, rfl, rfl⟩)

/-- The expressions leave one value each. -/
theorem expressions_fit : (list : List Expression) →
    ∀ s, (expressionsSegment list).Fits s (.replicate list.length .value ++ s)
  | [], s => by
    rw [expressionsSegment]
    exact fits_nothing
  | value :: rest, s => by
    rw [expressionsSegment]
    exact (value.fits s).values (expressions_fit rest)

theorem sequence_fits : (list : List Expression) → ∀ s, (sequenceSegment list).Fits s (.value :: s)
  | [], s => by
    rw [sequenceSegment]
    exact ⟨s, rfl, rfl⟩
  | [value], s => by
    rw [sequenceSegment]
    exact value.fits s
  | value :: next :: rest, s => by
    rw [sequenceSegment]
    exact (value.fits s).seq (Fits.seq ⟨s, rfl, rfl⟩ (sequence_fits (next :: rest) s))

theorem elements_fit : (list : List (Option Expression)) →
    ∀ s, (elementsSegment list).Fits s (.replicate list.length .value ++ s)
  | [], s => by
    rw [elementsSegment]
    exact fits_nothing
  | some value :: rest, s => by
    rw [elementsSegment]
    exact (value.fits s).values (elements_fit rest)
  | none :: rest, s => by
    rw [elementsSegment]
    exact Fits.values ⟨s, rfl, rfl⟩ (elements_fit rest)

/-- Setting properties keeps the object on the stack. -/
theorem properties_fit : (list : List (Property Expression)) →
    ∀ s, (propertiesSegment list).Fits (.value :: s) (.value :: s)
  | [], s => by
    rw [propertiesSegment]
    exact fits_nothing
  | ⟨key, value⟩ :: rest, s => by
    rw [propertiesSegment]
    exact (value.fits _).seq (Fits.seq (fun _ => ⟨s, rfl, rfl⟩) (properties_fit rest s))

end

theorem declarators_fit : (list : List (Declarator Expression)) →
    ∀ s, (declaratorsSegment list).Fits s (.value :: s)
  | [], s => ⟨s, rfl, rfl⟩
  | ⟨_, none⟩ :: rest, s => declarators_fit rest s
  | ⟨_, some init⟩ :: rest, s =>
    (init.fits s).seq (Fits.seq (fun _ => ⟨s, rfl, rfl⟩) (declarators_fit rest s))

theorem LoopHead.fits (head : LoopHead Expression) (s : Shape) :
    head.segment.Fits s (.value :: s) := by
  cases head with
  | declaration declarators => exact declarators_fit declarators s
  | expression value => exact value.fits s

theorem dropped_fits {part : Option Segment} (h : ∀ a ∈ part, ∀ s, a.Fits s (.value :: s))
    (s : Shape) : (droppedSegment part).Fits s s := by
  cases part with
  | none => exact fits_nothing
  | some a => exact (h a rfl s).seq ⟨s, rfl, rfl⟩

theorem escape_fits (tree : Statement) (s : Shape) : (escape tree).Fits s (.value :: s) :=
  ⟨s, rfl, rfl⟩

theorem foreign_fits {tree : Statement} (h : tree.isForeign = true) (s : Shape) :
    tree.segment.Fits s (.value :: s) := by
  rw [Statement.segment_of_isForeign h]
  exact escape_fits tree s

/-- Names alone do not change the stack. -/
theorem escape_fits_unused (texts : List String) (tree : Statement) (s : Shape) :
    ((Segment.unused texts).seq (escape tree)).Fits s (.value :: s) :=
  Fits.seq rfl (escape_fits tree s)

mutual

/-- The code of a statement leaves its completion value. -/
theorem Statement.fits : (tree : Statement) → ∀ s, tree.segment.Fits s (.value :: s)
  | .block body, s => by
    rw [Statement.segment]
    exact block_fits body s
  | .expression value, s => by
    rw [Statement.segment]
    exact value.fits s
  | .declaration declarators, s => by
    rw [Statement.segment]
    exact declarators_fit declarators s
  | .ifElse test consequent alternate, s => by
    rw [Statement.segment]
    exact (test.fits s).seq ⟨s, rfl, consequent.fits s, alternate_fits alternate s⟩
  | .whileLoop test body, s => by
    rw [Statement.segment]
    split
    · exact escape_fits_unused _ _ s
    · exact Fits.seq ⟨s, rfl, rfl⟩ ⟨test.fits _, Fits.seq ⟨s, rfl, rfl⟩ (body.fits s)⟩
  | .doWhile body test, s => by
    rw [Statement.segment]
    split
    · exact escape_fits_unused _ _ s
    · exact ⟨(body.fits s).seq (test.fits _), ⟨s, rfl, rfl⟩⟩
  | .forLoop init test update body, s => by
    rw [Statement.segment]
    split
    · exact escape_fits_unused _ _ s
    · have round : ((Segment.op .pop).seq
          (body.segment.seq (droppedSegment (update.map Expression.segment)))).Fits
            (.value :: s) (.value :: s) := by
        refine Fits.seq ⟨s, rfl, rfl⟩ ((body.fits s).seq (dropped_fits ?_ _))
        rintro a ha
        obtain ⟨value, -, rfl⟩ := Option.map_eq_some_iff.mp ha
        exact value.fits
      refine (dropped_fits ?_ s).seq (Fits.seq ⟨s, rfl, rfl⟩ ?_)
      · rintro a ha
        obtain ⟨head, -, rfl⟩ := Option.map_eq_some_iff.mp ha
        exact head.fits
      · cases test with
        | some test => exact ⟨test.fits _, round⟩
        | none => exact round
  | .empty, s => by
    rw [Statement.segment]
    exact ⟨s, rfl, rfl⟩
  | .forIn .., s | .ret .., s | .breakTo .., s | .continueTo .., s | .throw .., s
  | .tryCatch .., s | .switch .., s | .withObject .., s | .labeled .., s | .function .., s =>
    foreign_fits rfl s

/-- A block leaves the value of its last statement. -/
theorem block_fits : (body : List Statement) → ∀ s, (blockSegment body).Fits s (.value :: s)
  | [], s => by
    rw [blockSegment]
    exact ⟨s, rfl, rfl⟩
  | [tree], s => by
    rw [blockSegment]
    exact tree.fits s
  | tree :: next :: rest, s => by
    rw [blockSegment]
    exact (tree.fits s).seq (Fits.seq ⟨s, rfl, rfl⟩ (block_fits (next :: rest) s))

theorem alternate_fits : (alternate : Option Statement) →
    ∀ s, (alternateSegment alternate).Fits s (.value :: s)
  | some tree, s => by
    rw [alternateSegment]
    exact tree.fits s
  | none, s => by
    rw [alternateSegment]
    exact ⟨s, rfl, rfl⟩

end

end StackScript
