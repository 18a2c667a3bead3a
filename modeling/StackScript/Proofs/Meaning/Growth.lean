import StackScript.Proofs.Meaning.Endings

/-!
# Evaluation only adds objects

Evaluating an expression makes objects and never removes one. It may stop, but it does not return:
only the end of an entry point does. So if the run of an expression returns a value, that is the
value of the expression, and all objects that there were before are still there.
-/

namespace StackScript

namespace Machine

variable {m m' : Machine} {value : Value}

/-- Setting a property makes no object. -/
theorem size_of_setProperty_eq_ok {id : Nat} {key : String}
    (done : m.setProperty id key value = .ok m') : m'.objects.size = m.objects.size := by
  unfold setProperty at done
  split at done
  · cases done
    exact Array.size_modify
  · cases done

/-- Nor does writing a place. -/
theorem size_of_write_eq_ok {r : Reference} (done : m.write r value = .ok m') :
    m'.objects.size = m.objects.size := by
  cases r with
  | name text =>
    cases done
    rfl
  | property id key => exact size_of_setProperty_eq_ok done

/-- Nor does a call. -/
theorem size_of_call_eq_ok {callee result : Value} {arguments : List Value}
    (done : m.call callee arguments = .ok (result, m')) : m'.objects.size = m.objects.size := by
  cases callee with
  | native id =>
    unfold call at done
    cases found : m.natives[id]? with
    | some native =>
      simp only [found] at done
      cases done
      rfl
    | none =>
      simp only [found] at done
      cases done
  | _ => cases done

/-- A place that cannot be read is no reason to return. -/
theorem ne_returned_of_read_eq_error {r : Reference} {stop : Stop}
    (stopped : m.read r = .error stop)
    (value : Value) : stop ≠ .outcome (.returned value) := by
  rintro rfl
  cases r with
  | name text =>
    rw [read] at stopped
    split at stopped <;> cases stopped
  | property id key =>
    rw [read] at stopped
    cases result : m.property (.object id) key with
    | ok found =>
      rw [result] at stopped
      cases stopped
    | error why =>
      rw [result] at stopped
      cases stopped

end Machine

namespace Evaluate

variable {α β : Type} {x y : Evaluate α} {f : α → Evaluate β} {m m' : Machine}

/-- The result of evaluation that started with the machine: no object has been removed, or it
    stopped, but not to return. -/
inductive Proper (m : Machine) : EStateM.Result Stop Machine α → Prop
  | ok {a : α} {m' : Machine} (grown : m.objects.size ≤ m'.objects.size) : Proper m (.ok a m')
  | error {stop : Stop} {m' : Machine} (real : ∀ value, stop ≠ .outcome (.returned value)) :
    Proper m (.error stop m')

theorem Proper.of_le {result : EStateM.Result Stop Machine α} (h : Proper m' result)
    (grown : m.objects.size ≤ m'.objects.size) : Proper m result := by
  cases h with
  | ok grown' => exact .ok (Nat.le_trans grown grown')
  | error real => exact .error real

/-- Evaluation that removes no object and does not return. -/
def Orderly (x : Evaluate α) : Prop :=
  ∀ m, Proper m (x m)

/-- One evaluation after another. -/
theorem Orderly.bind (first : Orderly x) (second : ∀ a, Orderly (f a)) : Orderly (x >>= f) := by
  intro m
  have half := first m
  cases result : x m with
  | ok a m' =>
    rw [result] at half
    rw [bind_of_eq_ok result]
    cases half with
    | ok grown => exact (second a m').of_le grown
  | error stop m' =>
    rw [result] at half
    rw [bind_of_eq_error result]
    cases half with
    | error real => exact .error real

theorem Orderly.ite {c : Prop} [Decidable c] (h : Orderly x) (h' : Orderly y) :
    Orderly (if c then x else y) := by
  split
  · exact h
  · exact h'

theorem orderly_pure (a : α) : Orderly (pure a) :=
  fun _ => .ok (Nat.le_refl _)

theorem orderly_fault (why : Fault) : Orderly (fault why : Evaluate α) :=
  fun _ => .error fun _ h => by cases h

theorem orderly_threw (misuse : Misuse) : Orderly (finish (.threw misuse) : Evaluate α) :=
  fun _ => .error fun _ h => by cases h

theorem orderly_lift (result : Except Fault α) : Orderly (lift result) := by
  cases result with
  | ok a => exact orderly_pure a
  | error why => exact orderly_fault why

/-- Reading a place changes nothing. -/
theorem orderly_read (r : Reference) : Orderly (read r) := by
  intro m
  unfold read
  rw [get_bind]
  cases result : m.read r with
  | ok value => exact .ok (Nat.le_refl _)
  | error stop => exact .error (Machine.ne_returned_of_read_eq_error result)

theorem orderly_typeOf (r : Reference) : Orderly (typeOf r) := by
  intro m
  unfold typeOf
  rw [get_bind]
  cases m.read r with
  | ok value => exact .ok (Nat.le_refl _)
  | error stop =>
    cases stop with
    | outcome o => exact .ok (Nat.le_refl _)
    | fault why => exact orderly_fault why m

theorem orderly_property (object : Value) (key : String) : Orderly (property object key) :=
  fun m => orderly_lift (m.property object key) m

/-- A change of the machine that may fail. -/
theorem orderly_change {change : Machine → Except Fault Machine}
    (kept : ∀ m m', change m = .ok m' → m'.objects.size = m.objects.size) :
    Orderly (do set (← lift (change (← get)))) := by
  intro m
  change Proper m ((lift (change m) >>= set : Evaluate Unit) m)
  cases done : change m with
  | ok m' => exact .ok (Nat.le_of_eq (kept m m' done).symm)
  | error why => exact orderly_fault why m

theorem orderly_write (r : Reference) (value : Value) : Orderly (write r value) :=
  orderly_change fun _ _ => Machine.size_of_write_eq_ok

theorem orderly_setProperty (id : Nat) (key : String) (value : Value) :
    Orderly (setProperty id key value) :=
  orderly_change fun _ _ => Machine.size_of_setProperty_eq_ok

/-- One more object. -/
theorem orderly_allocate (properties : Bindings) : Orderly (allocate properties) := by
  intro m
  refine .ok ?_
  change m.objects.size ≤ (m.objects.push properties).size
  rw [Array.size_push]
  exact Nat.le_succ _

/-- A call records itself, and makes no object. -/
theorem orderly_call (callee : Value) (arguments : List Value) :
    Orderly (call callee arguments) := by
  intro m
  change Proper m ((lift (m.call callee arguments) >>= fun done =>
    set done.2 >>= fun _ => pure done.1 : Evaluate Value) m)
  cases done : m.call callee arguments with
  | ok result => exact .ok (Nat.le_of_eq (Machine.size_of_call_eq_ok done).symm)
  | error why => exact orderly_fault why m

theorem orderly_placeOf (object : Value) (key : String) : Orderly (placeOf object key) := by
  cases object with
  | object id => exact orderly_pure _
  | _ => exact orderly_fault _

/-- Evaluation that ends with a return has come to the value that is returned. -/
theorem Orderly.exists_of_returned {x : Evaluate Value} (orderly : Orderly x) {value : Value}
    (returned : (x.ended m).stop = .outcome (.returned value)) :
    ∃ m', x m = .ok value m' ∧ m.objects.size ≤ m'.objects.size := by
  have proper := orderly m
  unfold ended at returned
  cases result : x m with
  | ok found m' =>
    rw [result] at returned proper
    cases returned
    cases proper with
    | ok grown => exact ⟨m', rfl, grown⟩
  | error stop m' =>
    rw [result] at returned proper
    cases proper with
    | error real => exact absurd returned (real value)

end Evaluate

open Evaluate

theorem Literal.orderly_eval (value : Literal) : Orderly value.eval := by
  cases value with
  | regExp => exact orderly_fault _
  | _ => exact orderly_pure _

/-- What an operator of two operands means changes nothing. -/
theorem BinaryOperator.orderly_apply (operator : BinaryOperator) (left right : Value) :
    Orderly (operator.apply left right) := by
  cases operator <;> first | exact orderly_pure _ | exact orderly_fault _

/-- What an operator of one operand means changes nothing. -/
theorem UnaryOperator.orderly_apply (operator : UnaryOperator) (value : Value) :
    Orderly (operator.apply value) := by
  cases operator <;> first | exact orderly_pure _ | exact orderly_fault _

/-- Nor does what an assignment makes of the old value and the new one. -/
theorem AssignmentOperator.orderly_combine? {operator : AssignmentOperator}
    {combine : Value → Value → Evaluate Value} (found : operator.combine? = some combine)
    (old new : Value) : Orderly (combine old new) := by
  rw [operator.combine?_eq] at found
  obtain ⟨binary, -, rfl⟩ := Option.map_eq_some_iff.mp found
  exact binary.orderly_apply old new

mutual

/-- No expression takes objects away or returns from the script. -/
theorem Expression.orderly_eval : (e : Expression) → Orderly e.eval
  | .literal value => value.orderly_eval
  | .name _ => orderly_read _
  | .thisValue => orderly_pure _
  | .function .. => orderly_fault _
  | .array elements =>
    (orderly_evalElements elements).bind fun _ => (orderly_allocate _).bind fun _ => orderly_pure _
  | .object properties =>
    (orderly_allocate _).bind fun id =>
      (orderly_evalProperties id properties).bind fun _ => orderly_pure _
  | .member object _ => object.orderly_eval.bind fun _ => orderly_property _ _
  | .index object key =>
    object.orderly_eval.bind fun _ => key.orderly_eval.bind fun _ => orderly_property _ _
  | .call callee arguments => by
    rw [Expression.eval]
    cases found : callee.place? with
    | some place =>
      exact (callee.orderly_place? found).bind fun r => (orderly_evalAll arguments).bind fun _ =>
        (orderly_read r).bind fun _ => orderly_call _ _
    | none =>
      exact callee.orderly_eval.bind fun _ => (orderly_evalAll arguments).bind fun _ =>
        orderly_call _ _
  | .construct callee arguments => by
    rw [Expression.eval]
    cases found : callee.place? with
    | some place =>
      exact (callee.orderly_place? found).bind fun _ => (orderly_evalAll arguments).bind fun _ =>
        orderly_fault _
    | none =>
      exact callee.orderly_eval.bind fun _ => (orderly_evalAll arguments).bind fun _ =>
        orderly_fault _
  | .unary .delete argument => by
    rw [Expression.eval]
    cases found : argument.place? with
    | some place => exact (argument.orderly_place? found).bind fun _ => orderly_fault _
    | none => exact argument.orderly_eval.bind fun _ => orderly_threw _
  | .unary .typeof argument => by
    rw [Expression.eval]
    cases found : argument.place? with
    | some place => exact (argument.orderly_place? found).bind orderly_typeOf
    | none => exact argument.orderly_eval.bind (UnaryOperator.orderly_apply _)
  | .unary .minus argument | .unary .plus argument | .unary .not argument | .unary .bitNot argument
  | .unary .void argument => argument.orderly_eval.bind (UnaryOperator.orderly_apply _)
  | .update _ argument _ => by
    rw [Expression.eval]
    cases found : argument.place? with
    | some place =>
      exact (argument.orderly_place? found).bind fun r => (orderly_read r).bind fun _ =>
        (orderly_write r _).bind fun _ => orderly_pure _
    | none => exact argument.orderly_eval.bind fun _ => orderly_threw _
  | .binary operator left right =>
    left.orderly_eval.bind fun _ => right.orderly_eval.bind fun _ => operator.orderly_apply _ _
  | .logical _ left right =>
    left.orderly_eval.bind fun _ => .ite (orderly_pure _) right.orderly_eval
  | .assignment operator target value => by
    rw [Expression.eval]
    cases found : target.place? with
    | some place =>
      refine (target.orderly_place? found).bind fun r => ?_
      cases combined : operator.combine? with
      | none =>
        exact value.orderly_eval.bind fun v => (orderly_write r v).bind fun _ => orderly_pure v
      | some combine =>
        exact (orderly_read r).bind fun old => value.orderly_eval.bind fun v =>
          (AssignmentOperator.orderly_combine? combined old v).bind fun new =>
            (orderly_write r new).bind fun _ => orderly_pure new
    | none => exact target.orderly_eval.bind fun _ => orderly_threw _
  | .conditional test consequent alternate =>
    test.orderly_eval.bind fun _ => .ite consequent.orderly_eval alternate.orderly_eval
  | .sequence expressions => orderly_evalSequence expressions
termination_by structural e => e

/-- The same of a place. -/
theorem Expression.orderly_place? : (e : Expression) → {place : Evaluate Reference} →
    e.place? = some place → Orderly place
  | .name _, _, rfl => orderly_pure _
  | .member object _, _, rfl => object.orderly_eval.bind fun _ => orderly_placeOf _ _
  | .index object key, _, rfl =>
    object.orderly_eval.bind fun _ => key.orderly_eval.bind fun _ => orderly_placeOf _ _
termination_by structural e => e

theorem orderly_evalAll : (list : List Expression) → Orderly (evalAll list)
  | [] => orderly_pure _
  | value :: rest =>
    value.orderly_eval.bind fun _ => (orderly_evalAll rest).bind fun _ => orderly_pure _
termination_by structural list => list

theorem orderly_evalSequence : (list : List Expression) → Orderly (evalSequence list)
  | [] => orderly_pure _
  | [value] => value.orderly_eval
  | value :: next :: rest => value.orderly_eval.bind fun _ => orderly_evalSequence (next :: rest)
termination_by structural list => list

theorem orderly_evalElements : (list : List (Option Expression)) → Orderly (evalElements list)
  | [] => orderly_pure _
  | some value :: rest =>
    value.orderly_eval.bind fun _ => (orderly_evalElements rest).bind fun _ => orderly_pure _
  | none :: rest => (orderly_evalElements rest).bind fun _ => orderly_pure _
termination_by structural list => list

theorem orderly_evalProperties (id : Nat) : (list : List (Property Expression)) →
    Orderly (evalProperties id list)
  | [] => orderly_pure _
  | ⟨_, value⟩ :: rest =>
    value.orderly_eval.bind fun _ => (orderly_setProperty id _ _).bind fun _ =>
      orderly_evalProperties id rest
termination_by structural list => list

end

end StackScript
