import StackScript.Proofs.Segment.Flow

/-!
# Statements that complete

Whether the end of the code of a statement can be reached is told by the structure of the statement.
Only a `for` without a test is never left; but a loop that is handed over to the tree walker is a
single instruction, whatever it does.
-/

namespace StackScript

mutual

/-- The statement can complete. What is handed over to the tree walker does. -/
def Statement.completes : Statement → Bool
  | .block body => blockCompletes body
  | .ifElse _ consequent alternate => consequent.completes || alternateCompletes alternate
  | .doWhile body _ => body.needsWalker || body.completes
  | .forLoop _ test _ body => body.needsWalker || test.isSome
  | _ => true

/-- Each of the statements can complete. -/
def blockCompletes : List Statement → Bool
  | [] => true
  | s :: rest => s.completes && blockCompletes rest

/-- An alternate that is not there completes. -/
def alternateCompletes : Option Statement → Bool
  | none => true
  | some s => s.completes

end

mutual

/-- Each `for` in the statement has a test, unless it is handed over to the tree walker. -/
def Statement.isTested : Statement → Bool
  | .block body => blockIsTested body
  | .ifElse _ consequent alternate => consequent.isTested && alternateIsTested alternate
  | .whileLoop _ body | .doWhile body _ => body.needsWalker || body.isTested
  | .forLoop _ test _ body => body.needsWalker || test.isSome && body.isTested
  | _ => true

/-- Each `for` in the statements has a test. -/
def blockIsTested : List Statement → Bool
  | [] => true
  | s :: rest => s.isTested && blockIsTested rest

/-- Each `for` in the alternate has a test. -/
def alternateIsTested : Option Statement → Bool
  | none => true
  | some s => s.isTested

end

theorem blockCompletes_eq_all (body : List Statement) :
    blockCompletes body = body.all Statement.completes := by
  induction body with
  | nil => rfl
  | cons s rest ih => rw [blockCompletes, ih, List.all_cons]

theorem blockIsTested_eq_all (body : List Statement) :
    blockIsTested body = body.all Statement.isTested := by
  induction body with
  | nil => rfl
  | cons s rest ih => rw [blockIsTested, ih, List.all_cons]

open Segment

theorem declarators_isStraight (list : List (Declarator Expression)) :
    (declaratorsSegment list).isStraight = true := by
  induction list with
  | nil => rfl
  | cons declarator rest ih =>
    obtain ⟨name, init⟩ := declarator
    cases init with
    | none => exact ih
    | some init =>
      rw [declaratorsSegment, isStraight, isStraight, init.isStraight_segment, ih]
      rfl

theorem LoopHead.isStraight_segment (head : LoopHead Expression) :
    head.segment.isStraight = true := by
  cases head with
  | declaration declarators => exact declarators_isStraight declarators
  | expression value => exact value.isStraight_segment

theorem dropped_isStraight {part : Option Segment} (h : ∀ a ∈ part, a.isStraight = true) :
    (droppedSegment part).isStraight = true := by
  cases part with
  | none => rfl
  | some a =>
    rw [droppedSegment, isStraight, h a rfl]
    rfl

theorem dropped_head_isStraight (init : Option (LoopHead Expression)) :
    (droppedSegment (init.map LoopHead.segment)).isStraight = true := by
  apply dropped_isStraight
  intro a mem
  obtain ⟨head, -, rfl⟩ := Option.mem_map.mp mem
  exact head.isStraight_segment

theorem dropped_value_isStraight (value : Option Expression) :
    (droppedSegment (value.map Expression.segment)).isStraight = true := by
  apply dropped_isStraight
  intro a mem
  obtain ⟨value, -, rfl⟩ := Option.mem_map.mp mem
  exact value.isStraight_segment

namespace Segment

theorem completes_of_isStraight {s : Segment} (h : s.isStraight = true) : s.completes = true :=
  completes_of_isTested (isTested_of_isStraight h)

end Segment

mutual

/-- The end of the code of a statement can be reached if and only if the statement can complete. -/
theorem Statement.completes_segment : (tree : Statement) → tree.segment.completes = tree.completes
  | .block body => block_completes_segment body
  | .expression value => completes_of_isStraight value.isStraight_segment
  | .declaration declarators => completes_of_isStraight (declarators_isStraight declarators)
  | .ifElse test consequent alternate => by
    rw [Statement.segment, Segment.completes, Segment.completes,
      completes_of_isStraight test.isStraight_segment, consequent.completes_segment,
      alternate_completes_segment alternate, Bool.true_and, Statement.completes]
  | .whileLoop test body => by
    rw [Statement.segment]
    split
    · rfl
    · show test.segment.completes = true
      exact completes_of_isStraight test.isStraight_segment
  | .doWhile body test => by
    rw [Statement.segment, Statement.completes]
    split
    · rename_i walked
      rw [walked]
      rfl
    · rename_i inline
      rw [Bool.not_eq_true] at inline
      rw [Segment.completes, Segment.completes, body.completes_segment,
        completes_of_isStraight test.isStraight_segment, Bool.and_true, inline, Bool.false_or]
  | .forLoop init test update body => by
    rw [Statement.segment, Statement.completes]
    split
    · rename_i walked
      rw [walked]
      rfl
    · rename_i inline
      rw [Bool.not_eq_true] at inline
      rw [Segment.completes, completes_of_isStraight (dropped_head_isStraight init), inline,
        Bool.true_and, Bool.false_or]
      cases test with
      | none => rfl
      | some test =>
        show test.segment.completes = true
        exact completes_of_isStraight test.isStraight_segment
  | .empty => rfl
  | .forIn .. | .ret .. | .breakTo .. | .continueTo .. | .throw .. | .tryCatch .. | .switch ..
  | .withObject .. | .labeled .. | .function .. => rfl

theorem block_completes_segment : (body : List Statement) →
    (blockSegment body).completes = blockCompletes body
  | [] => rfl
  | [s] => by
    rw [blockSegment, blockCompletes, blockCompletes, Bool.and_true]
    exact s.completes_segment
  | s :: next :: rest => by
    rw [blockSegment, blockCompletes, Segment.completes, Segment.completes, s.completes_segment,
      block_completes_segment (next :: rest)]
    rfl

theorem alternate_completes_segment : (alternate : Option Statement) →
    (alternateSegment alternate).completes = alternateCompletes alternate
  | some s => s.completes_segment
  | none => rfl

end

mutual

/-- If each `for` has a test, nothing in the code of a statement is repeated without one. -/
theorem Statement.isTested_segment : (tree : Statement) → tree.isTested = true →
    tree.segment.isTested = true
  | .block body, tested => block_isTested_segment body tested
  | .expression value, _ => isTested_of_isStraight value.isStraight_segment
  | .declaration declarators, _ => isTested_of_isStraight (declarators_isStraight declarators)
  | .ifElse test consequent alternate, tested => by
    rw [Statement.isTested, Bool.and_eq_true] at tested
    rw [Statement.segment, Segment.isTested, Segment.isTested,
      isTested_of_isStraight test.isStraight_segment, consequent.isTested_segment tested.1,
      alternate_isTested_segment alternate tested.2]
    rfl
  | .whileLoop test body, tested => by
    rw [Statement.isTested, Bool.or_eq_true] at tested
    rw [Statement.segment]
    split
    · rfl
    · rename_i inline
      rw [Segment.isTested, Segment.isTested, Segment.isTested,
        isTested_of_isStraight test.isStraight_segment,
        body.isTested_segment (tested.resolve_left inline)]
      rfl
  | .doWhile body test, tested => by
    rw [Statement.isTested, Bool.or_eq_true] at tested
    rw [Statement.segment]
    split
    · rfl
    · rename_i inline
      rw [Segment.isTested, Segment.isTested, isTested_of_isStraight test.isStraight_segment,
        body.isTested_segment (tested.resolve_left inline)]
      rfl
  | .forLoop init test update body, tested => by
    rw [Statement.isTested, Bool.or_eq_true] at tested
    rw [Statement.segment]
    split
    · rfl
    · rename_i inline
      have both := Bool.and_eq_true_iff.mp (tested.resolve_left inline)
      obtain ⟨test, rfl⟩ := Option.isSome_iff_exists.mp both.1
      have round := body.isTested_segment both.2
      rw [Segment.isTested, isTested_of_isStraight (dropped_head_isStraight init), Segment.isTested,
        Segment.isTested, Segment.isTested, Segment.isTested,
        isTested_of_isStraight test.isStraight_segment, round,
        isTested_of_isStraight (dropped_value_isStraight update)]
      rfl
  | .empty, _ => rfl
  | .forIn .., _ | .ret .., _ | .breakTo .., _ | .continueTo .., _ | .throw .., _ | .tryCatch .., _
  | .switch .., _ | .withObject .., _ | .labeled .., _ | .function .., _ => rfl

theorem block_isTested_segment : (body : List Statement) → blockIsTested body = true →
    (blockSegment body).isTested = true
  | [], _ => rfl
  | [s], tested => by
    rw [blockIsTested, Bool.and_eq_true] at tested
    exact s.isTested_segment tested.1
  | s :: next :: rest, tested => by
    rw [blockIsTested, Bool.and_eq_true] at tested
    rw [blockSegment, Segment.isTested, Segment.isTested, s.isTested_segment tested.1,
      block_isTested_segment (next :: rest) tested.2]
    rfl

theorem alternate_isTested_segment : (alternate : Option Statement) →
    alternateIsTested alternate = true →
    (alternateSegment alternate).isTested = true
  | some s, tested => s.isTested_segment tested
  | none, _ => rfl

end

end StackScript
