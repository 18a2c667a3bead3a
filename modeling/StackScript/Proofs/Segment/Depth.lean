import StackScript.Proofs.Segment.Flow
import StackScript.Proofs.Segment.Typing

/-!
# How high the stack grows

The greatest depth of the stack while an expression is evaluated, above what was there before, is
told by the structure of the expression: what is already on the stack when a part is evaluated
counts for the part.
-/

namespace StackScript

/-- The operator does not take the value of a reference, but the place. -/
def UnaryOperator.takesPlace : UnaryOperator → Bool
  | .typeof | .delete => true
  | _ => false

mutual

/-- The greatest depth of the stack while the expression is evaluated. -/
def Expression.depth : Expression → Nat
  | .literal _ | .name _ | .thisValue | .function .. => 1
  | .array elements => max 1 (depthOfElements 0 elements)
  | .object properties => max 1 (depthOfProperties properties)
  | .member object _ => object.depth
  | .index object key => max object.depth (1 + key.depth)
  | .call callee arguments | .construct callee arguments =>
    max (if callee.isReference then callee.placeDepth else callee.depth)
      (depthOfArguments 1 arguments)
  | .unary operator argument =>
    if operator.takesPlace && argument.isReference then argument.placeDepth else argument.depth
  | .update _ argument _ => if argument.isReference then argument.placeDepth else argument.depth
  | .binary _ left right => max left.depth (1 + right.depth)
  | .logical _ left right => max left.depth right.depth
  | .assignment operator target value =>
    if target.isReference then max target.placeDepth
      ((if operator.binary?.isSome then 2 else 1) + value.depth)
    else target.depth
  | .conditional test consequent alternate => max test.depth (max consequent.depth alternate.depth)
  | .sequence expressions => max 1 (depthOfSequence expressions)

/-- The greatest depth while the place that a reference stands for is found. -/
def Expression.placeDepth : Expression → Nat
  | .name _ => 1
  | .member object _ => max object.depth 2
  | .index object key => max object.depth (1 + key.depth)
  | _ => 0

/-- The values of the arguments stay on the stack, above as many slots as are given. -/
def depthOfArguments (below : Nat) : List Expression → Nat
  | [] => 0
  | value :: rest => max (below + value.depth) (depthOfArguments (below + 1) rest)

/-- The elements stay on the stack, above as many slots as are given. A hole is an element. -/
def depthOfElements (below : Nat) : List (Option Expression) → Nat
  | [] => 0
  | some value :: rest => max (below + value.depth) (depthOfElements (below + 1) rest)
  | none :: rest => max (below + 1) (depthOfElements (below + 1) rest)

/-- Each value stands above the object, until it is made a property. -/
def depthOfProperties : List (Property Expression) → Nat
  | [] => 0
  | ⟨_, value⟩ :: rest => max (1 + value.depth) (depthOfProperties rest)

/-- Each value is dropped before the next one. -/
def depthOfSequence : List Expression → Nat
  | [] => 0
  | value :: rest => max value.depth (depthOfSequence rest)

end

namespace Segment

/-- Entered with one depth of the stack, a segment in which nothing is repeated is left with
    another, and the greatest depth on any way through it is the third. -/
inductive Climbs : Segment → (before after peak : Nat) → Prop
  | plain {i : Instruction} {fixed : i.isFixed = true} (rest pops pushes : Nat)
      (effect : i.effect = ⟨pops, pushes⟩) :
      Climbs (.plain i fixed) (rest + pops) (rest + pushes) (max (rest + pops) (rest + pushes))
  | named {op : Op} {text : String} {extra : Option Operand} {goesOn : op.goesOn = true}
      (rest pops pushes : Nat)
      (effect : ∀ n, Instruction.effect { op := op, operand := some (.name n), extra := extra } =
        ⟨pops, pushes⟩) :
      Climbs (.named op text extra goesOn) (rest + pops) (rest + pushes)
        (max (rest + pops) (rest + pushes))
  | nothing (d : Nat) : Climbs .nothing d d d
  | seq {a b : Segment} {d mid d' m k : Nat} (first : a.Climbs d mid m)
      (second : b.Climbs mid d' k) :
      Climbs (a.seq b) d d' (max m k)
  | skip {a : Segment} {d m : Nat} (operator : LogicalOperator) (body : a.Climbs d (d + 1) m) :
      Climbs (.skip operator a) (d + 1) (d + 1) (max (d + 1) m)
  /-- The tested value may be left for the alternate. -/
  | branch {a b : Segment} {d d' m k : Nat} (keeps : Bool) (consequent : a.Climbs d d' m)
      (alternate : b.Climbs (if keeps then d + 1 else d) d' k) :
      Climbs (.branch keeps a b) (d + 1) d' (max (d + 1) (max m k))

theorem Climbs.peak_eq {s : Segment} {d d' m m' : Nat} (h : s.Climbs d d' m) (same : m = m') :
    s.Climbs d d' m' :=
  same ▸ h

theorem Climbs.after_eq {s : Segment} {d d' e m : Nat} (h : s.Climbs d d' m) (same : d' = e) :
    s.Climbs d e m :=
  same ▸ h

/-- The peak is not below the end. -/
theorem Climbs.after_le {s : Segment} {d d' m : Nat} (h : s.Climbs d d' m) : d' ≤ m := by
  induction h with
  | plain => exact le_max_right _ _
  | named => exact le_max_right _ _
  | nothing => exact le_rfl
  | seq _ _ _ ih => exact ih.trans (le_max_right _ _)
  | skip => exact le_max_left _ _
  | branch _ _ _ ih _ => omega

/-- An operation that puts one slot in the place of another. -/
theorem Climbs.closed {s : Segment} {d m : Nat} (h : s.Climbs d (d + 1) m) {i : Instruction}
    {fixed : i.isFixed = true}
    (effect : i.effect = ⟨1, 1⟩) : (s.seq (Segment.plain i fixed)).Climbs d (d + 1) m := by
  have high := h.after_le
  exact (h.seq (.plain d 1 1 effect)).peak_eq (by omega)

end Segment

open Segment

theorem Literal.climbs (value : Literal) (d : Nat) : value.segment.Climbs d (d + 1) (d + 1) := by
  have pushes {i : Instruction} {fixed : i.isFixed = true} (effect : i.effect = ⟨0, 1⟩) :
      (plain i fixed).Climbs d (d + 1) (d + 1) :=
    (Climbs.plain d 0 1 effect).peak_eq (by omega)
  cases value with
  | boolean b => cases b <;> exact pushes rfl
  | _ => exact pushes rfl

theorem BinaryOperator.climbs (operator : BinaryOperator) (d : Nat) :
    (Segment.op operator.op operator.goesOn_op).Climbs (d + 2) (d + 1) (max (d + 2) (d + 1)) :=
  .plain d 2 1 (by cases operator <;> rfl)

mutual

/-- The code of an expression leaves one more slot, and the stack grows as high as told. -/
theorem Expression.climbs : (e : Expression) → ∀ d, e.segment.Climbs d (d + 1) (d + e.depth)
  | .literal value, d => value.climbs d
  | .name text, d => (Climbs.named d 0 1 fun _ => rfl).peak_eq (max_eq_right (Nat.le_succ d))
  | .thisValue, d => (Climbs.plain d 0 1 rfl).peak_eq (max_eq_right (Nat.le_succ d))
  | .function .., d => (Climbs.plain d 0 1 rfl).peak_eq (max_eq_right (Nat.le_succ d))
  | .array elements, d => by
    have values := elements_climb elements d 0
    have high := values.after_le
    refine (values.seq (.plain d elements.length 1 rfl)).peak_eq ?_
    show _ = d + max 1 (depthOfElements 0 elements)
    omega
  | .object properties, d => by
    refine (Climbs.seq (.plain d 0 1 rfl) (properties_climb properties d)).peak_eq ?_
    show _ = d + max 1 (depthOfProperties properties)
    omega
  | .member object name, d => by
    have high := (object.climbs d).after_le
    refine ((object.climbs d).seq (.named d 1 1 fun _ => rfl)).peak_eq ?_
    show _ = d + object.depth
    omega
  | .index object key, d => by
    have high := (key.climbs (d + 1)).after_le
    refine ((object.climbs d).seq ((key.climbs (d + 1)).seq (.plain d 2 1 rfl))).peak_eq ?_
    show _ = d + max object.depth (1 + key.depth)
    omega
  | .call callee arguments, d | .construct callee arguments, d => by
    have values := arguments_climb arguments d 1
    have high := values.after_le
    have applied : d + 1 + arguments.length = d + (arguments.length + 1) := by omega
    rw [Expression.segment, Expression.depth]
    by_cases place : callee.isReference = true
    · rw [if_pos place, if_pos place]
      have low := (callee.place_climbs place false d).after_le
      refine ((callee.place_climbs place false d).seq
        ((values.after_eq applied).seq (.plain d (arguments.length + 1) 1 rfl))).peak_eq ?_
      omega
    · rw [if_neg place, if_neg place]
      have low := (callee.climbs d).after_le
      refine ((callee.climbs d).seq
        ((values.after_eq applied).seq (.plain d (arguments.length + 1) 1 rfl))).peak_eq ?_
      omega
  | .unary .delete argument, d | .unary .typeof argument, d => by
    rw [Expression.segment]
    show Climbs _ d (d + 1)
        (d + if argument.isReference then argument.placeDepth else argument.depth)
    split
    · exact (argument.place_climbs ‹_› false d).closed rfl
    · exact (argument.climbs d).closed rfl
  | .unary .minus argument, d | .unary .plus argument, d | .unary .not argument, d
  | .unary .bitNot argument, d | .unary .void argument, d => (argument.climbs d).closed rfl
  | .update operator argument before, d => by
    rw [Expression.segment, Expression.depth]
    split
    · exact (argument.place_climbs ‹_› false d).closed (by cases operator <;> cases before <;> rfl)
    · exact (argument.climbs d).closed rfl
  | .binary operator left right, d => by
    have high := (right.climbs (d + 1)).after_le
    refine ((left.climbs d).seq ((right.climbs (d + 1)).seq (operator.climbs d))).peak_eq ?_
    show _ = d + max left.depth (1 + right.depth)
    omega
  | .logical operator left right, d => by
    have high := (left.climbs d).after_le
    refine ((left.climbs d).seq (.skip operator (right.climbs d))).peak_eq ?_
    show _ = d + max left.depth right.depth
    omega
  | .assignment operator target value, d => by
    rw [Expression.segment, Expression.depth]
    split
    · have place := target.place_climbs ‹_› true d
      cases operator.binary? with
      | none =>
        have high := (value.climbs (d + 1)).after_le
        refine (place.seq ((value.climbs (d + 1)).seq (.plain d 2 1 rfl))).peak_eq ?_
        show _ = d + max target.placeDepth (1 + value.depth)
        omega
      | some binary =>
        have high := (value.climbs (d + 2)).after_le
        have read : (Segment.op .deref).Climbs (d + 1) (d + 2) _ := .plain d 1 2 rfl
        refine (place.seq (read.seq ((value.climbs (d + 2)).seq
          ((binary.climbs (d + 1)).seq (.plain d 2 1 rfl))))).peak_eq ?_
        show _ = d + max target.placeDepth (2 + value.depth)
        omega
    · exact (target.climbs d).closed rfl
  | .conditional test consequent alternate, d => by
    have high := (test.climbs d).after_le
    have dropped : (Segment.op .pop).Climbs (d + 1) d _ := .plain d 1 0 rfl
    have chosen := Climbs.branch true (consequent.climbs d) (dropped.seq (alternate.climbs d))
    refine ((test.climbs d).seq chosen).peak_eq ?_
    show _ = d + max test.depth (max consequent.depth alternate.depth)
    omega
  | .sequence expressions, d => sequence_climbs expressions d

theorem Expression.place_climbs : (e : Expression) → e.isReference = true → ∀ create d,
    (e.referenceSegment create).Climbs d (d + 1) (d + e.placeDepth)
  | .name text, _, _, d => (Climbs.named d 0 1 fun _ => rfl).peak_eq (max_eq_right (Nat.le_succ d))
  | .member object name, _, _, d => by
    have high := (object.climbs d).after_le
    refine ((object.climbs d).seq
      (.seq (.named (d + 1) 0 1 fun _ => rfl) (.plain d 2 1 rfl))).peak_eq ?_
    show _ = d + max object.depth 2
    omega
  | .index object key, _, _, d => by
    have high := (key.climbs (d + 1)).after_le
    refine ((object.climbs d).seq ((key.climbs (d + 1)).seq (.plain d 2 1 rfl))).peak_eq ?_
    show _ = d + max object.depth (1 + key.depth)
    omega

/-- Each argument is evaluated above those before it. -/
theorem arguments_climb : (list : List Expression) → ∀ d below,
    (expressionsSegment list).Climbs (d + below) (d + below + list.length)
      (max (d + below) (d + depthOfArguments below list))
  | [], d, below =>
    (Climbs.nothing (d + below)).peak_eq (max_eq_left (Nat.le_add_right d below)).symm
  | value :: rest, d, below => by
    have first := value.climbs (d + below)
    have high := first.after_le
    refine ((first.seq (arguments_climb rest d (below + 1))).after_eq ?_).peak_eq ?_
    · rw [List.length_cons]
      omega
    · show _ = max (d + below) (d + max (below + value.depth) (depthOfArguments (below + 1) rest))
      omega

theorem sequence_climbs : (list : List Expression) → ∀ d,
    (sequenceSegment list).Climbs d (d + 1) (d + max 1 (depthOfSequence list))
  | [], d => (Climbs.plain d 0 1 rfl).peak_eq (max_eq_right (Nat.le_succ d))
  | [value], d => by
    have high := (value.climbs d).after_le
    refine (value.climbs d).peak_eq ?_
    show _ = d + max 1 (max value.depth 0)
    omega
  | value :: next :: rest, d => by
    have high := (value.climbs d).after_le
    have others := sequence_climbs (next :: rest) d
    refine ((value.climbs d).seq (.seq (.plain d 1 0 rfl) others)).peak_eq ?_
    show _ = d + max 1 (max value.depth (depthOfSequence (next :: rest)))
    omega

theorem elements_climb : (list : List (Option Expression)) → ∀ d below,
    (elementsSegment list).Climbs (d + below) (d + below + list.length)
      (max (d + below) (d + depthOfElements below list))
  | [], d, below =>
    (Climbs.nothing (d + below)).peak_eq (max_eq_left (Nat.le_add_right d below)).symm
  | some value :: rest, d, below => by
    have first := value.climbs (d + below)
    have high := first.after_le
    refine ((first.seq (elements_climb rest d (below + 1))).after_eq ?_).peak_eq ?_
    · rw [List.length_cons]
      omega
    · show _ = max (d + below) (d + max (below + value.depth) (depthOfElements (below + 1) rest))
      omega
  | none :: rest, d, below => by
    have hole : (Segment.op .pushUndefined).Climbs (d + below) _ _ := .plain (d + below) 0 1 rfl
    refine ((hole.seq (elements_climb rest d (below + 1))).after_eq ?_).peak_eq ?_
    · rw [List.length_cons]
      omega
    · show _ = max (d + below) (d + max (below + 1) (depthOfElements (below + 1) rest))
      omega

/-- Each property is evaluated above the object. -/
theorem properties_climb : (list : List (Property Expression)) → ∀ d,
    (propertiesSegment list).Climbs (d + 1) (d + 1) (max (d + 1) (d + depthOfProperties list))
  | [], d => (Climbs.nothing (d + 1)).peak_eq (max_eq_left (Nat.le_succ d)).symm
  | ⟨key, value⟩ :: rest, d => by
    have high := (value.climbs (d + 1)).after_le
    refine ((value.climbs (d + 1)).seq
      (.seq (.named d 2 1 fun _ => rfl) (properties_climb rest d))).peak_eq ?_
    show _ = max (d + 1) (d + max (1 + value.depth) (depthOfProperties rest))
    omega

end

/-! ## Shapes at offsets -/

/-- From one offset to another the shapes begin and end with the given depths, and the third is the
    greatest. -/
structure Scales (shape : Nat → Shape) (a b before after peak : Nat) : Prop where
  le : a ≤ b
  first : (shape a).length = before
  last : (shape b).length = after
  bound : ∀ p, a ≤ p → p ≤ b → (shape p).length ≤ peak
  attained : ∃ p, a ≤ p ∧ p ≤ b ∧ (shape p).length = peak

theorem scales_self {shape : Nat → Shape} {a d : Nat} (first : (shape a).length = d) :
    Scales shape a a d d d where
  le := le_rfl
  first := first
  last := first
  bound p above below := by
    obtain rfl : p = a := Nat.le_antisymm below above
    exact first.le
  attained := ⟨a, le_rfl, le_rfl, first⟩

/-- Two stretches of offsets that meet or stand side by side. Control need not go from one to the
    other. -/
theorem Scales.join {shape : Nat → Shape} {a b b' c d x x' d' m k : Nat}
    (left : Scales shape a b d x m)
    (right : Scales shape b' c x' d' k) (near : b ≤ b' ∧ b' ≤ b + 1) :
    Scales shape a c d d' (max m k) where
  le := left.le.trans (near.1.trans right.le)
  first := left.first
  last := right.last
  bound p above below := by
    by_cases early : p ≤ b
    · exact (left.bound p above early).trans (le_max_left _ _)
    · exact (right.bound p (by omega) below).trans (le_max_right _ _)
  attained := by
    have := left.le
    have := right.le
    by_cases higher : m ≤ k
    · obtain ⟨p, above, below, high⟩ := right.attained
      exact ⟨p, by omega, below, by rw [high, max_eq_right higher]⟩
    · obtain ⟨p, above, below, high⟩ := left.attained
      exact ⟨p, above, by omega, by rw [high, max_eq_left (Nat.le_of_not_le higher)]⟩

theorem Instruction.Turns.length_eq {i : Instruction} {s s' : Shape} (h : i.Turns s s')
    {rest pops pushes : Nat}
    (effect : i.effect = ⟨pops, pushes⟩) (before : s.length = rest + pops) :
    s'.length = rest + pushes := by
  obtain ⟨below, rfl, rfl⟩ := h
  rw [Instruction.effect_eq, StackEffect.mk.injEq] at effect
  rw [List.length_append] at before ⊢
  omega

/-- Each instruction of a stretch agrees with the shapes around it. -/
theorem Typed.agrees {code : Array Instruction} {shape : Nat → Shape} {lo hi a b o : Nat}
    {i : Instruction}
    (typed : Typed code shape lo hi a b) (above : a ≤ o) (below : o < b)
    (found : code[o]? = some i) :
    i.Agrees shape lo hi o := by
  obtain ⟨j, here, agrees⟩ := typed o above below
  obtain rfl : j = i := Option.some.inj (here.symm.trans found)
  exact agrees

namespace Segment

variable {code : Array Instruction} {shape : Nat → Shape} {lo hi o n d d' m : Nat}

/-- One instruction that does not jump away. -/
theorem scales_single {i : Instruction} {rest pops pushes : Nat} (agrees : i.Agrees shape lo hi o)
    (falls : i.op ≠ .jump) (effect : i.effect = ⟨pops, pushes⟩)
    (before : (shape o).length = rest + pops) :
    Scales shape o (o + 1) (rest + pops) (rest + pushes) (max (rest + pops) (rest + pushes)) :=
  (scales_self before).join (scales_self ((agrees.onward falls).length_eq effect before))
    ⟨Nat.le_succ _, le_rfl⟩

theorem effect_jumpTo_op (operator : LogicalOperator) (t : Nat) :
    (Instruction.jumpTo operator.op t).effect = ⟨1, 0⟩ := by
  cases operator <;> rfl

theorem effect_jumpTo_branchOp (keeps : Bool) (t : Nat) :
    (Instruction.jumpTo (branchOp keeps) t).effect = ⟨1, 0⟩ := by
  cases keeps <;> rfl

/-- The depth at the alternate of a choice. -/
theorem length_of_agrees_branch {keeps : Bool} {t : Nat}
    (agrees : (Instruction.jumpTo (branchOp keeps) t).Agrees shape lo hi o)
    (before : (shape o).length = d + 1) :
    (shape t).length = if keeps then d + 1 else d := by
  cases keeps with
  | true =>
    obtain ⟨_, operand, -, -, same⟩ := agrees.kept (.inl rfl)
    cases operand
    rw [same]
    exact before
  | false =>
    obtain ⟨_, operand, -, -, turns⟩ := agrees.taken (.inr rfl)
    cases operand
    exact turns.length_eq (effect_jumpTo_branchOp false t) before

/-- Wherever a segment stands, shapes that fit its instructions climb as it does. -/
theorem Climbs.scales {s : Segment} (climbs : s.Climbs d d' m)
    (stands : Stands code o (s.place o n))
    (typed : Typed code shape lo hi o (o + s.size)) (before : (shape o).length = d) :
    Scales shape o (o + s.size) d d' m := by
  induction climbs generalizing o n with
  | @plain i fixed rest pops pushes effect =>
    obtain ⟨found, -⟩ := stands
    have agrees := typed.agrees le_rfl (Nat.lt_succ_self o) found
    exact scales_single agrees (ne_jump_of_goesOn (Bool.and_eq_true_iff.mp fixed).1) effect before
  | @named op text extra goesOn rest pops pushes effect =>
    obtain ⟨found, -⟩ := stands
    have agrees := typed.agrees le_rfl (Nat.lt_succ_self o) found
    exact scales_single agrees (ne_jump_of_goesOn goesOn) (effect n) before
  | nothing d => exact scales_self before
  | @seq a b d mid d' m k _ _ ih₁ ih₂ =>
    obtain ⟨stands₁, stands₂⟩ := stands_seq.mp stands
    rw [size, ← Nat.add_assoc] at typed ⊢
    have first := ih₁ stands₁ (fun p above below => typed p above (by omega)) before
    have second := ih₂ stands₂ (fun p above below => typed p (by omega) below) first.last
    exact first.join second ⟨le_rfl, Nat.le_succ _⟩
  | @skip a d m operator _ ih =>
    obtain ⟨found, stands⟩ := stands_skip.mp stands
    have stop : o + (a.size + 1) = o + 1 + a.size := by omega
    rw [size, stop] at typed ⊢
    have agrees := typed.agrees le_rfl (by omega) found
    have onward :=
      (agrees.onward (op_ne_jump operator)).length_eq (effect_jumpTo_op operator _) before
    have body := ih stands (fun p above below => typed p (by omega) below) onward
    exact (scales_self before).join body ⟨Nat.le_succ _, le_rfl⟩
  | @branch a b d d' m k keeps _ _ ih₁ ih₂ =>
    obtain ⟨found, stands₁, -, stands₂⟩ := stands_branch.mp stands
    have stop : o + (a.size + b.size + 2) = o + 1 + a.size + 1 + b.size := by omega
    rw [size, stop] at typed ⊢
    have agrees := typed.agrees le_rfl (by omega) found
    have onward :=
      (agrees.onward (branchOp_ne_jump keeps)).length_eq (effect_jumpTo_branchOp keeps _) before
    have left := ih₁ stands₁ (fun p above below => typed p (by omega) (by omega)) onward
    have right := ih₂ stands₂ (fun p above below => typed p (by omega) below)
      (length_of_agrees_branch agrees before)
    exact (scales_self before).join (left.join right ⟨Nat.le_succ _, le_rfl⟩)
      ⟨Nat.le_succ _, le_rfl⟩

end Segment

end StackScript
