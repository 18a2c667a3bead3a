import StackScript.Proofs.Meaning.Expression

/-!
# The code of statements means what statements mean

On any stack, the segment of a statement does what evaluating the statement does with the same
number of rounds for loops, and leaves its completion value. A loop keeps the value of its last
round below what it tests.
-/

namespace StackScript

open Evaluate Segment

section Loops

variable {testExec bodyExec : List Slot → Evaluate (List Slot)} {test body : Evaluate Value}

/-- A loop that tests first. Its body drops the value of the round before. -/
theorem cycled_eq_rounds
    (htest : ∀ stack, testExec stack = test >>= fun v => pure (.value v :: stack))
    (hbody : ∀ last stack, bodyExec (.value last :: stack) =
      body >>= fun v => pure (.value v :: stack))
    (left : Nat) (last : Value) (stack : List Slot) :
    cycled testExec bodyExec left (.value last :: stack) =
      rounds test body left last >>= fun v => pure (.value v :: stack) := by
  induction left generalizing last with
  | zero => rfl
  | succ left ih =>
    simp only [cycled, rounds, htest, bind_assoc, pure_bind, tested]
    refine bind_congr fun v => ?_
    split
    · simp only [hbody, bind_assoc, pure_bind, ih]
    · rw [pure_bind]

/-- A loop without a test is one whose test is always true. -/
theorem repeated_eq_rounds
    (hbody : ∀ last stack, bodyExec (.value last :: stack) =
      body >>= fun v => pure (.value v :: stack))
    (left : Nat) (last : Value) (stack : List Slot) :
    repeated bodyExec left (.value last :: stack) =
      rounds (pure (.bool true)) body left last >>= fun v => pure (.value v :: stack) := by
  induction left generalizing last with
  | zero => rfl
  | succ left ih =>
    simp only [repeated, rounds, hbody, bind_assoc, pure_bind, Value.truthy, if_true, ih]

/-- A loop that tests last. The value of the round is dropped when there is another. -/
theorem cycled_eq_roundsFirst
    (htest : ∀ stack, testExec stack = do
      let last ← body
      let v ← test
      pure (.value v :: .value last :: stack))
    (hbody : ∀ last stack, bodyExec (.value last :: stack) = pure stack)
    (left : Nat) (stack : List Slot) :
    cycled testExec bodyExec left stack =
      roundsFirst body test left >>= fun v => pure (.value v :: stack) := by
  induction left with
  | zero => rfl
  | succ left ih =>
    simp only [cycled, roundsFirst, htest, bind_assoc, pure_bind, tested]
    refine bind_congr fun last => bind_congr fun v => ?_
    split
    · rw [hbody, pure_bind, ih]
    · rw [pure_bind]

end Loops

theorem declarators_exec (fuel : Nat) (list : List (Declarator Expression)) (stack : List Slot) :
    (declaratorsSegment list).exec fuel stack =
      evalDeclarators list >>= fun v => pure (.value v :: stack) := by
  induction list with
  | nil => rfl
  | cons declarator rest ih =>
    obtain ⟨name, init⟩ := declarator
    cases init with
    | none => exact ih
    | some init =>
      simp only [declaratorsSegment, evalDeclarators, exec_seq, init.exec_segment fuel, bind_assoc,
        pure_bind, exec_storeVar, ih]

theorem LoopHead.exec_segment (fuel : Nat) (head : LoopHead Expression) (stack : List Slot) :
    head.segment.exec fuel stack = head.eval >>= fun v => pure (.value v :: stack) := by
  cases head with
  | declaration declarators => exact declarators_exec fuel declarators stack
  | expression value => exact value.exec_segment fuel stack

theorem dropped_exec {α : Type} {fuel : Nat} {code : α → Segment} {value : α → Evaluate Value}
    (h : ∀ a stack, (code a).exec fuel stack = value a >>= fun v => pure (.value v :: stack))
    (part : Option α) (stack : List Slot) :
    (droppedSegment (part.map code)).exec fuel stack =
      evalDropped (part.map value) >>= fun _ => pure stack := by
  cases part with
  | none => rfl
  | some a =>
    simp only [Option.map_some, droppedSegment, evalDropped, exec_seq, h, bind_assoc, pure_bind,
      exec_pop]

mutual

theorem Statement.exec_segment (fuel : Nat) : (s : Statement) → ∀ stack,
    s.segment.exec fuel stack = s.eval fuel >>= fun v => pure (.value v :: stack)
  | .block body, stack => by
    rw [Statement.segment, Statement.eval]
    exact block_exec fuel body stack
  | .expression value, stack => by
    rw [Statement.segment, Statement.eval]
    exact value.exec_segment fuel stack
  | .declaration declarators, stack => by
    rw [Statement.segment, Statement.eval]
    exact declarators_exec fuel declarators stack
  | .ifElse test consequent alternate, stack => by
    rw [Statement.segment, Statement.eval]
    simp only [exec_seq, test.exec_segment fuel, bind_assoc, pure_bind, exec_branch]
    refine bind_congr fun v => ?_
    split
    · exact consequent.exec_segment fuel stack
    · exact alternate_exec fuel alternate stack
  | .whileLoop test body, stack => by
    rw [Statement.segment, Statement.eval]
    split
    · simp only [exec_seq, exec_unused, pure_bind, exec_escape]
      rfl
    · simp only [exec_seq, exec_pushUndefined, pure_bind]
      refine cycled_eq_rounds (test.exec_segment fuel) (fun last stack => ?_) fuel _ stack
      simp only [exec_seq, exec_pop, pure_bind, body.exec_segment fuel]
  | .doWhile body test, stack => by
    rw [Statement.segment, Statement.eval]
    split
    · simp only [exec_seq, exec_unused, pure_bind, exec_escape]
      rfl
    · refine cycled_eq_roundsFirst (fun stack => ?_) (fun last stack => exec_pop) fuel stack
      simp only [exec_seq, body.exec_segment fuel, test.exec_segment fuel, bind_assoc, pure_bind]
  | .forLoop init test update body, stack => by
    rw [Statement.segment, Statement.eval]
    split
    · simp only [exec_seq, exec_unused, pure_bind, exec_escape]
      rfl
    · have round (last : Value) (stack : List Slot) :
          ((Segment.op .pop).seq (body.segment.seq
            (droppedSegment (update.map Expression.segment)))).exec fuel (.value last :: stack) =
          (do
            let value ← body.eval fuel
            evalDropped (update.map Expression.eval)
            return value : Evaluate Value) >>= fun v => pure (.value v :: stack) := by
        simp only [exec_seq, exec_pop, body.exec_segment fuel,
          dropped_exec (fun value => value.exec_segment fuel) update, bind_assoc, pure_bind]
      simp only [exec_seq, dropped_exec (LoopHead.exec_segment fuel) init, exec_pushUndefined,
        bind_assoc, pure_bind]
      refine bind_congr fun _ => ?_
      cases test with
      | some test => exact cycled_eq_rounds (test.exec_segment fuel) round fuel _ stack
      | none => exact repeated_eq_rounds round fuel _ stack
  | .empty, stack => by
    rw [Statement.segment, Statement.eval, pure_bind]
    exact exec_pushUndefined
  | .forIn .., stack | .ret .., stack | .breakTo .., stack | .continueTo .., stack
  | .throw .., stack | .tryCatch .., stack | .switch .., stack | .withObject .., stack
  | .labeled .., stack | .function .., stack => by
    rw [Statement.segment_of_isForeign rfl, Statement.eval, exec_escape]
    · rfl
    all_goals simp

theorem block_exec (fuel : Nat) : (body : List Statement) → ∀ stack,
    (blockSegment body).exec fuel stack = evalBlock fuel body >>= fun v => pure (.value v :: stack)
  | [], stack => by
    rw [blockSegment, evalBlock, pure_bind]
    exact exec_pushUndefined
  | [s], stack => by
    rw [blockSegment, evalBlock]
    exact s.exec_segment fuel stack
  | s :: next :: rest, stack => by
    rw [blockSegment, evalBlock]
    simp only [exec_seq, s.exec_segment fuel, block_exec fuel (next :: rest), bind_assoc, pure_bind,
      exec_pop]

theorem alternate_exec (fuel : Nat) : (alternate : Option Statement) → ∀ stack,
    (alternateSegment alternate).exec fuel stack =
      evalAlternate fuel alternate >>= fun v => pure (.value v :: stack)
  | some s, stack => by
    rw [alternateSegment, evalAlternate]
    exact s.exec_segment fuel stack
  | none, stack => by
    rw [alternateSegment, evalAlternate, pure_bind]
    exact exec_pushUndefined

end

end StackScript
