import StackScript.Proofs.Meaning.Operations

/-!
# The code of expressions means what expressions mean

On any stack, the segment of an expression does what evaluating the expression does, and leaves its
value.
-/

namespace StackScript

open Evaluate Segment

/-- What is done with a result may rest on what is known of results. -/
theorem Evaluate.bind_congr_of_ok {α β : Type} {x : Evaluate α} {f g : α → Evaluate β}
    (h : ∀ a m m', x m = .ok a m' → f a = g a) : x >>= f = x >>= g := by
  funext m
  simp only [Bind.bind, EStateM.bind]
  cases hx : x m with
  | ok a m' => exact congrFun (h a m m' hx) m'
  | error stop m' => rfl

theorem Evaluate.exists_of_bind_eq_ok {α β : Type} {x : Evaluate α} {f : α → Evaluate β} {b : β}
    {m m'' : Machine} (h : (x >>= f) m = .ok b m'') :
    ∃ a m', x m = .ok a m' ∧ f a m' = .ok b m'' := by
  simp only [Bind.bind, EStateM.bind] at h
  cases hx : x m with
  | ok a m' =>
    rw [hx] at h
    exact ⟨a, m', rfl, h⟩
  | error stop m' =>
    rw [hx] at h
    cases h

theorem length_of_evalAll_eq_ok {list : List Expression} {values : List Value} {m m' : Machine}
    (h : evalAll list m = .ok values m') : values.length = list.length := by
  induction list generalizing values m with
  | nil =>
    rw [evalAll] at h
    cases h
    rfl
  | cons value rest ih =>
    rw [evalAll] at h
    obtain ⟨v, m₁, -, h⟩ := exists_of_bind_eq_ok h
    obtain ⟨vs, m₂, hrest, h⟩ := exists_of_bind_eq_ok h
    cases h
    simp [ih hrest]

theorem length_of_evalElements_eq_ok {list : List (Option Expression)} {values : List Value}
    {m m' : Machine} (h : evalElements list m = .ok values m') : values.length = list.length := by
  induction list generalizing values m with
  | nil =>
    rw [evalElements] at h
    cases h
    rfl
  | cons element rest ih =>
    cases element with
    | some value =>
      rw [evalElements] at h
      obtain ⟨v, m₁, -, h⟩ := exists_of_bind_eq_ok h
      obtain ⟨vs, m₂, hrest, h⟩ := exists_of_bind_eq_ok h
      cases h
      simp [ih hrest]
    | none =>
      rw [evalElements] at h
      obtain ⟨vs, m₂, hrest, h⟩ := exists_of_bind_eq_ok h
      cases h
      simp [ih hrest]

/-- An operation on as many values as there are trees finds the values of the trees. -/
theorem exec_counted {a : Segment} {x : Evaluate (List Value)} {fuel n : Nat} {below : List Slot}
    {o : Op} {goesOn : o.goesOn = true} {f : List Value → Evaluate (List Slot)}
    (pushes : a.exec fuel below = x >>= fun values =>
      pure ((values.map Slot.value).reverse ++ below))
    (length : ∀ values m m', x m = .ok values m' → values.length = n)
    (h : ∀ values, (counted o values.length goesOn).exec fuel
      ((values.map Slot.value).reverse ++ below) = f values) :
    (a.seq (counted o n goesOn)).exec fuel below = x >>= f := by
  rw [exec_seq, pushes, bind_assoc]
  refine bind_congr_of_ok fun values m m' hx => ?_
  rw [pure_bind, ← length values m m' hx, h]

/-- What is no reference stands for no place. -/
theorem Expression.place?_eq_none {e : Expression} (value : ¬ e.isReference = true) :
    e.place? = none := by
  cases e with
  | name | member | index => exact absurd rfl value
  | _ => rfl

/-- A compound assignment combines by its binary operator. -/
theorem AssignmentOperator.combine?_eq (operator : AssignmentOperator) :
    operator.combine? = operator.binary?.map BinaryOperator.apply := by
  cases operator <;> rfl

mutual

theorem Expression.exec_segment (fuel : Nat) : (e : Expression) → ∀ stack,
    e.segment.exec fuel stack = e.eval >>= fun v => pure (.value v :: stack)
  | .literal value, stack => by
    rw [Expression.segment, Expression.eval]
    exact exec_literal value
  | .name text, stack => by
    rw [Expression.segment, Expression.eval]
    exact exec_loadName text
  | .thisValue, stack => by
    rw [Expression.segment, Expression.eval, pure_bind]
    exact exec_pushThis
  | .function name params body, stack => by
    rw [Expression.segment, Expression.eval]
    rfl
  | .array elements, stack => by
    rw [Expression.segment, Expression.eval]
    rw [exec_counted (elements_exec fuel elements stack)
      (fun values m m' h => length_of_evalElements_eq_ok h) exec_newArray]
    simp only [bind_assoc, pure_bind]
  | .object properties, stack => by
    rw [Expression.segment, Expression.eval]
    simp only [exec_seq, exec_newObject, bind_assoc, pure_bind, properties_exec fuel properties]
  | .member object name, stack => by
    rw [Expression.segment, Expression.eval]
    simp only [exec_seq, object.exec_segment fuel, bind_assoc, pure_bind, exec_getMember]
  | .index object key, stack => by
    rw [Expression.segment, Expression.eval]
    simp only [exec_seq, object.exec_segment fuel, key.exec_segment fuel, bind_assoc, pure_bind,
      exec_getIndex]
  | .call callee arguments, stack => by
    rw [Expression.segment, Expression.eval]
    split
    · obtain ⟨place, found, resolves⟩ := callee.exec_referenceSegment fuel ‹_›
      rw [exec_seq, resolves, found]
      simp only [bind_assoc, pure_bind]
      refine bind_congr fun r => ?_
      exact exec_counted (expressions_exec fuel arguments _)
        (fun values m m' h => length_of_evalAll_eq_ok h) exec_callRef
    · rw [exec_seq, callee.exec_segment fuel, callee.place?_eq_none ‹_›]
      simp only [bind_assoc, pure_bind]
      refine bind_congr fun v => ?_
      exact exec_counted (expressions_exec fuel arguments _)
        (fun values m m' h => length_of_evalAll_eq_ok h) exec_call
  | .construct callee arguments, stack => by
    rw [Expression.segment, Expression.eval]
    split
    · obtain ⟨place, found, resolves⟩ := callee.exec_referenceSegment fuel ‹_›
      simp only [exec_seq, resolves, found, expressions_exec fuel arguments, bind_assoc, pure_bind,
        exec_constructRef]
      rfl
    · simp only [exec_seq, callee.exec_segment fuel, callee.place?_eq_none ‹_›,
        expressions_exec fuel arguments, bind_assoc, pure_bind, exec_construct]
      rfl
  | .unary .delete argument, stack => by
    rw [Expression.segment, Expression.eval]
    split
    · obtain ⟨place, found, resolves⟩ := argument.exec_referenceSegment fuel ‹_›
      simp only [exec_seq, resolves, found, bind_assoc, pure_bind, exec_delete]
      rfl
    · simp only [exec_seq, argument.exec_segment fuel, argument.place?_eq_none ‹_›, bind_assoc,
        pure_bind, exec_misuse]
      rfl
  | .unary .typeof argument, stack => by
    rw [Expression.segment, Expression.eval]
    split
    · obtain ⟨place, found, resolves⟩ := argument.exec_referenceSegment fuel ‹_›
      simp only [exec_seq, resolves, found, bind_assoc, pure_bind, exec_typeOfRef]
    · simp only [exec_seq, argument.exec_segment fuel, argument.place?_eq_none ‹_›, bind_assoc,
        pure_bind]
      rfl
  | .unary .minus argument, stack | .unary .plus argument, stack | .unary .not argument, stack
  | .unary .bitNot argument, stack | .unary .void argument, stack => by
    rw [Expression.segment, Expression.eval]
    · simp only [exec_seq, argument.exec_segment fuel, bind_assoc, pure_bind, exec_unary, ne_eq,
        reduceCtorEq, not_false_eq_true]
    all_goals simp
  | .update operator argument before, stack => by
    rw [Expression.segment, Expression.eval]
    split
    · obtain ⟨place, found, resolves⟩ := argument.exec_referenceSegment fuel ‹_›
      simp only [exec_seq, resolves, found, bind_assoc, pure_bind, exec_update]
    · simp only [exec_seq, argument.exec_segment fuel, argument.place?_eq_none ‹_›, bind_assoc,
        pure_bind, exec_misuse]
      rfl
  | .binary operator left right, stack => by
    rw [Expression.segment, Expression.eval]
    simp only [exec_seq, left.exec_segment fuel, right.exec_segment fuel, bind_assoc, pure_bind,
      exec_binary]
  | .logical operator left right, stack => by
    rw [Expression.segment, Expression.eval]
    simp only [exec_seq, left.exec_segment fuel, bind_assoc, pure_bind, exec_skip]
    refine bind_congr fun v => ?_
    split
    · rw [pure_bind]
    · exact right.exec_segment fuel stack
  | .assignment operator target value, stack => by
    rw [Expression.segment, Expression.eval]
    split
    · obtain ⟨place, found, resolves⟩ := target.exec_referenceSegment fuel ‹_›
      rw [exec_seq, resolves, found, operator.combine?_eq]
      simp only [bind_assoc, pure_bind]
      refine bind_congr fun r => ?_
      cases operator.binary? with
      | none =>
        simp only [Option.map_none, exec_seq, value.exec_segment fuel, bind_assoc, pure_bind,
          exec_assign]
      | some binary =>
        simp only [Option.map_some, exec_seq, exec_deref, value.exec_segment fuel, bind_assoc,
          pure_bind, exec_binary, exec_assign]
    · simp only [exec_seq, target.exec_segment fuel, target.place?_eq_none ‹_›, bind_assoc,
        pure_bind, exec_misuse]
      rfl
  | .conditional test consequent alternate, stack => by
    rw [Expression.segment, Expression.eval]
    simp only [exec_seq, test.exec_segment fuel, bind_assoc, pure_bind, exec_branch]
    refine bind_congr fun v => ?_
    split
    · exact consequent.exec_segment fuel stack
    · exact alternate.exec_segment fuel stack
  | .sequence expressions, stack => by
    rw [Expression.segment, Expression.eval]
    exact sequence_exec fuel expressions stack

theorem Expression.exec_referenceSegment (fuel : Nat) : (e : Expression) → e.isReference = true →
    ∃ place, e.place? = some place ∧ ∀ create stack,
      (e.referenceSegment create).exec fuel stack = place >>= fun r => pure (.reference r :: stack)
  | .name text, _ => by
    refine ⟨_, rfl, fun create stack => ?_⟩
    rw [Expression.referenceSegment, pure_bind]
    exact exec_resolveName text _ _
  | .member object name, _ => by
    refine ⟨_, rfl, fun create stack => ?_⟩
    rw [Expression.referenceSegment]
    simp only [exec_seq, object.exec_segment fuel, bind_assoc, pure_bind, exec_pushName,
      exec_resolveIndex, Value.toKey]
  | .index object key, _ => by
    refine ⟨_, rfl, fun create stack => ?_⟩
    rw [Expression.referenceSegment]
    simp only [exec_seq, object.exec_segment fuel, key.exec_segment fuel, bind_assoc, pure_bind,
      exec_resolveIndex]

theorem expressions_exec (fuel : Nat) : (list : List Expression) → ∀ stack,
    (expressionsSegment list).exec fuel stack =
      evalAll list >>= fun values => pure ((values.map Slot.value).reverse ++ stack)
  | [], stack => by
    rw [expressionsSegment, evalAll, pure_bind]
    exact exec_nothing
  | value :: rest, stack => by
    rw [expressionsSegment, evalAll]
    simp only [exec_seq, value.exec_segment fuel, expressions_exec fuel rest, bind_assoc, pure_bind,
      List.map_cons, List.reverse_cons, List.append_assoc, List.singleton_append]

theorem sequence_exec (fuel : Nat) : (list : List Expression) → ∀ stack,
    (sequenceSegment list).exec fuel stack =
      evalSequence list >>= fun v => pure (.value v :: stack)
  | [], stack => by
    rw [sequenceSegment, evalSequence, pure_bind]
    exact exec_pushUndefined
  | [value], stack => by
    rw [sequenceSegment, evalSequence]
    exact value.exec_segment fuel stack
  | value :: next :: rest, stack => by
    rw [sequenceSegment, evalSequence]
    simp only [exec_seq, value.exec_segment fuel, sequence_exec fuel (next :: rest), bind_assoc,
      pure_bind, exec_pop]

theorem elements_exec (fuel : Nat) : (list : List (Option Expression)) → ∀ stack,
    (elementsSegment list).exec fuel stack =
      evalElements list >>= fun values => pure ((values.map Slot.value).reverse ++ stack)
  | [], stack => by
    rw [elementsSegment, evalElements, pure_bind]
    exact exec_nothing
  | some value :: rest, stack => by
    rw [elementsSegment, evalElements]
    simp only [exec_seq, value.exec_segment fuel, elements_exec fuel rest, bind_assoc, pure_bind,
      List.map_cons, List.reverse_cons, List.append_assoc, List.singleton_append]
  | none :: rest, stack => by
    rw [elementsSegment, evalElements]
    simp only [exec_seq, exec_pushUndefined, elements_exec fuel rest, bind_assoc, pure_bind,
      List.map_cons, List.reverse_cons, List.append_assoc, List.singleton_append]

/-- The object stays on the stack while its properties are set. -/
theorem properties_exec (fuel : Nat) : (list : List (Property Expression)) → ∀ id stack,
    (propertiesSegment list).exec fuel (.value (.object id) :: stack) =
      evalProperties id list >>= fun _ => pure (.value (.object id) :: stack)
  | [], id, stack => by
    rw [propertiesSegment, evalProperties, pure_bind]
    exact exec_nothing
  | ⟨key, value⟩ :: rest, id, stack => by
    rw [propertiesSegment, evalProperties]
    simp only [exec_seq, value.exec_segment fuel, exec_setProperty, properties_exec fuel rest,
      bind_assoc, pure_bind]

end

end StackScript
