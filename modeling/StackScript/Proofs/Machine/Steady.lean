import StackScript.Machine.Run
import StackScript.Proofs.Segment.Basic

/-!
# Steps that do not depend on the offset

An instruction that neither jumps nor returns does the same wherever it stands: it does not look at
the offset, and leaves it alone. Its only tie to the code around it is the pool that its name is
looked up in.
-/

namespace StackScript

/-- The same state at another offset. -/
def Running.at (r : Running) (o : Nat) : Running :=
  { r with offset := o }

/-- The same result at another offset. -/
def Step.move {α : Type} (o : Nat) : EStateM.Result Stop Running α → EStateM.Result Stop Running α
  | .ok a r => .ok a (r.at o)
  | .error stop r => .error stop (r.at o)

namespace Step

/-- The step neither reads nor changes the offset, and it does not give up for want of steps. -/
structure Steady {α : Type} (step : Step α) : Prop where
  moves : ∀ (r : Running) (o : Nat), step (r.at o) = move o (step r)
  stops : ∀ r r', step r ≠ .error (.fault .outOfSteps) r'

variable {α β : Type}

/-- One step after another. -/
theorem Steady.bind {step : Step α} {rest : α → Step β} (first : Steady step)
    (second : ∀ a, Steady (rest a)) : Steady (step >>= rest) where
  moves := by
    intro r o
    simp only [Bind.bind, EStateM.bind, first.moves r o]
    cases step r with
    | ok a r' => exact (second a).moves r' o
    | error stop r' => rfl
  stops := by
    intro r r'
    simp only [Bind.bind, EStateM.bind]
    cases h : step r with
    | ok a r₁ => exact (second a).stops r₁ r'
    | error stop r₁ =>
      intro hstop
      cases hstop
      exact first.stops r r' h

theorem steady_pure (a : α) : Steady (pure a) where
  moves := fun _ _ => rfl
  stops := fun _ _ h => by cases h

/-- To stop is no matter of the offset or the budget. -/
theorem steady_throw {stop : Stop} (h : stop ≠ .fault .outOfSteps) :
    Steady (throw stop : Step α) where
  moves := fun _ _ => rfl
  stops := by
    rintro r r' hstop
    cases hstop
    exact h rfl

theorem steady_fault {f : Fault} (h : f ≠ .outOfSteps) : Steady (fault f : Step α) :=
  steady_throw (by simpa using h)

theorem steady_finish (o : Outcome) : Steady (finish o : Step α) :=
  steady_throw (by simp)

theorem steady_machine : Steady machine where
  moves := fun _ _ => rfl
  stops := fun _ _ h => by cases h

theorem steady_setMachine (m : Machine) : Steady (setMachine m) where
  moves := fun _ _ => rfl
  stops := fun _ _ h => by cases h

theorem steady_pushSlot (s : Slot) : Steady (pushSlot s) where
  moves := fun _ _ => rfl
  stops := fun _ _ h => by cases h

theorem steady_push (v : Value) : Steady (push v) :=
  steady_pushSlot _

/-- What is on the stack is taken wherever control is. -/
theorem steady_pop : Steady pop where
  moves := by
    rintro ⟨m, stack, o'⟩ o
    cases stack <;> rfl
  stops := by
    rintro ⟨m, stack, o'⟩ r' h
    cases stack <;> cases h

theorem steady_peek : Steady peek where
  moves := by
    rintro ⟨m, stack, o'⟩ o
    cases stack <;> rfl
  stops := by
    rintro ⟨m, stack, o'⟩ r' h
    cases stack <;> cases h

theorem steady_asValue (s : Slot) : Steady (asValue s) := by
  cases s with
  | value v => exact steady_pure v
  | reference r => exact steady_fault (by simp)

theorem steady_asReference (s : Slot) : Steady (asReference s) := by
  cases s with
  | value v => exact steady_fault (by simp)
  | reference r => exact steady_pure r

theorem steady_popValue : Steady popValue :=
  steady_pop.bind steady_asValue

theorem steady_popReference : Steady popReference :=
  steady_pop.bind steady_asReference

theorem steady_mapM_asValue (slots : List Slot) : Steady (slots.mapM asValue) := by
  induction slots with
  | nil => exact steady_pure []
  | cons s slots ih =>
    rw [List.mapM_cons]
    exact (steady_asValue s).bind fun v => ih.bind fun vs => steady_pure (v :: vs)

/-- Several values are taken in one go, and come out in the order in which they were pushed. -/
theorem popValues_apply (n : Nat) (r : Running) :
    popValues n r =
      if r.stack.length < n then (fault .shortStack : Step (List Value)) r
      else (r.stack.take n).reverse.mapM asValue { r with stack := r.stack.drop n } := by
  have opened : popValues n r =
      (if r.stack.length < n then fault .shortStack
      else do
        modify fun s => { s with stack := r.stack.drop n }
        (r.stack.take n).reverse.mapM asValue : Step (List Value)) r := rfl
  rw [opened]
  split <;> rfl

/-- Several values. -/
theorem steady_popValues (n : Nat) : Steady (popValues n) where
  moves := by
    intro r o
    rw [popValues_apply, popValues_apply]
    by_cases h : r.stack.length < n
    · rw [if_pos h, if_pos (show (r.at o).stack.length < n from h)]
      rfl
    · rw [if_neg h, if_neg (show ¬ (r.at o).stack.length < n from h)]
      exact (steady_mapM_asValue _).moves { r with stack := r.stack.drop n } o
  stops := by
    intro r r'
    rw [popValues_apply]
    split
    · intro hstop
      cases hstop
    · exact (steady_mapM_asValue _).stops _ r'

/-! ## What is done with the machine -/

/-- What the machine does, it does wherever control is. -/
theorem steady_lift {result : Except Fault α} (h : result ≠ .error .outOfSteps) :
    Steady (lift result) := by
  cases result with
  | ok a => exact steady_pure a
  | error f =>
    refine steady_fault fun hf => h ?_
    rw [hf]

theorem property_ne (m : Machine) (value : Value) (key : String) :
    m.property value key ≠ .error .outOfSteps := by
  cases value with
  | object id =>
    simp only [Machine.property, Machine.object]
    cases m.objects[id]? <;> simp [Except.map]
  | _ => simp [Machine.property]

/-- Reading a place stops for other reasons. -/
theorem read_ne (m : Machine) (r : Reference) : m.read r ≠ .error (.fault .outOfSteps) := by
  cases r with
  | name text =>
    simp only [Machine.read]
    cases m.globals.get? text <;> simp
  | property id key =>
    have h := property_ne m (.object id) key
    simp only [Machine.read]
    cases hp : m.property (.object id) key with
    | ok value => simp [Except.mapError]
    | error f => simpa [Except.mapError, hp] using h

theorem setProperty_ne (m : Machine) (id : Nat) (key : String) (value : Value) :
    m.setProperty id key value ≠ .error .outOfSteps := by
  simp only [Machine.setProperty]
  split <;> simp

/-- So does writing. -/
theorem write_ne (m : Machine) (r : Reference) (value : Value) :
    m.write r value ≠ .error .outOfSteps := by
  cases r with
  | name text => simp [Machine.write]
  | property id key => exact setProperty_ne m id key value

/-- So does a call. -/
theorem call_ne (m : Machine) (callee : Value) (arguments : List Value) :
    m.call callee arguments ≠ .error .outOfSteps := by
  cases callee with
  | native id =>
    simp only [Machine.call]
    cases m.natives[id]? <;> simp
  | _ => simp [Machine.call]

theorem steady_read (r : Reference) : Steady (read r) := by
  refine steady_machine.bind fun m => ?_
  have h := read_ne m r
  cases hr : m.read r with
  | ok value => exact steady_pure value
  | error stop =>
    refine steady_throw fun hstop => h ?_
    rw [hr, hstop]

theorem steady_write (r : Reference) (value : Value) : Steady (write r value) :=
  steady_machine.bind fun m => (steady_lift (write_ne m r value)).bind steady_setMachine

theorem steady_nameOperand (code : Runnable) (i : Instruction) : Steady (nameOperand code i) := by
  unfold nameOperand
  split
  · split
    · exact steady_pure _
    · exact steady_fault (by simp)
  · exact steady_fault (by simp)

theorem steady_countOperand (i : Instruction) : Steady (countOperand i) := by
  unfold countOperand
  split
  · exact steady_pure _
  · exact steady_fault (by simp)

theorem steady_pushNew (properties : Bindings) : Steady (pushNew properties) :=
  steady_machine.bind fun _ => (steady_setMachine _).bind fun _ => steady_push _

/-- A call is the same wherever it stands. -/
theorem steady_call (i : Instruction) : Steady (call i) := by
  refine (steady_countOperand i).bind fun n => (steady_popValues n).bind fun arguments => ?_
  refine steady_pop.bind fun slot => ?_
  have rest (callee : Value) : Steady (machine >>= fun m =>
      lift (m.call callee arguments) >>= fun answer => setMachine answer.2 >>= fun _ =>
        push answer.1) :=
    steady_machine.bind fun m => (steady_lift (call_ne m callee arguments)).bind fun answer =>
      (steady_setMachine answer.2).bind fun _ => steady_push answer.1
  cases slot with
  | value v => exact (steady_pure v).bind rest
  | reference r => exact (steady_read r).bind rest

theorem steady_update (i : Instruction) (delta : Float) : Steady (update i delta) :=
  steady_popReference.bind fun r => (steady_read r).bind fun _ =>
    (steady_write r _).bind fun _ => steady_push _

/-- So is an operation on values. -/
theorem steady_compute (i : Instruction) : Steady (compute i) := by
  unfold compute
  split
  · exact steady_popValue.bind fun _ => steady_popValue.bind fun _ => steady_push _
  · exact steady_popValue.bind fun _ => steady_push _
  · exact steady_update i _
  · exact steady_fault (by simp)

/-- So is every instruction after which control goes on. -/
theorem steady_execute (code : Runnable) {i : Instruction} (goesOn : i.op.goesOn = true) :
    Steady (execute code i) := by
  have name := steady_nameOperand code i
  unfold execute
  cases hop : i.op with
  | jump | jumpIfFalse | jumpIfFalseOrPop | jumpIfTrueOrPop | ret =>
    rw [hop] at goesOn
    cases goesOn
  | pushUndefined | pushNull | pushTrue | pushFalse | pushThis => exact steady_push _
  | pushNumber | pushString =>
    dsimp only
    split
    · exact steady_push _
    · exact steady_fault (by simp)
  | pushName => exact name.bind fun _ => steady_push _
  | pop => exact steady_pop.bind fun _ => steady_pure ()
  | loadName => exact name.bind fun _ => (steady_read _).bind fun _ => steady_push _
  | storeVar => exact name.bind fun _ => steady_popValue.bind fun _ => steady_write _ _
  | resolveName => exact name.bind fun _ => steady_pushSlot _
  | resolveIndex =>
    refine steady_popValue.bind fun key => steady_popValue.bind fun object => ?_
    cases object with
    | object id => exact steady_pushSlot _
    | _ => exact steady_fault (by simp)
  | deref =>
    exact steady_peek.bind fun _ => (steady_asReference _).bind fun r =>
      (steady_read r).bind fun _ => steady_push _
  | assign =>
    exact steady_popValue.bind fun _ => steady_popReference.bind fun r =>
      (steady_write r _).bind fun _ => steady_push _
  | getMember =>
    exact name.bind fun _ => steady_popValue.bind fun _ => steady_machine.bind fun _ =>
      (steady_lift (property_ne _ _ _)).bind fun _ => steady_push _
  | getIndex =>
    exact steady_popValue.bind fun _ => steady_popValue.bind fun _ => steady_machine.bind fun _ =>
      (steady_lift (property_ne _ _ _)).bind fun _ => steady_push _
  | setProperty =>
    refine name.bind fun _ => steady_popValue.bind fun _ => steady_peek.bind fun slot =>
      (steady_asValue slot).bind fun object => ?_
    cases object with
    | object id =>
      exact steady_machine.bind fun _ => (steady_lift (setProperty_ne _ _ _ _)).bind
        steady_setMachine
    | _ => exact steady_fault (by simp)
  | newObject => exact steady_pushNew []
  | newArray =>
    exact (steady_countOperand i).bind fun n => (steady_popValues n).bind fun _ => steady_pushNew _
  | typeOfRef =>
    refine steady_popReference.bind fun r => steady_machine.bind fun m => ?_
    have h := read_ne m r
    cases hr : m.read r with
    | ok value => exact steady_push _
    | error stop =>
      cases stop with
      | outcome o => exact steady_push _
      | fault f =>
        refine steady_throw fun hstop => h ?_
        rw [hr, hstop]
  | call | callRef => exact steady_call i
  | escape | throwMisuse =>
    dsimp only
    split
    · exact steady_finish _
    · exact steady_fault (by simp)
  | _ => exact steady_compute i

/-! ## What an instruction needs to know about the code -/

/-- An instruction that is the same everywhere has no name. -/
theorem nameOperand_of_isFixed (code : Runnable) {i : Instruction} (fixed : i.isFixed = true) :
    nameOperand code i = fault (.badOperand i.op) := by
  unfold nameOperand
  split
  · rename_i index h
    simp [Instruction.isFixed, h] at fixed
  · rfl

/-- The text of its name is all that an instruction asks of the code. -/
theorem execute_congr {code code' : Runnable} {i : Instruction}
    (name : nameOperand code i = nameOperand code' i) : execute code i = execute code' i := by
  unfold execute
  rw [name]

/-- An instruction without a name does the same in any code. -/
theorem execute_of_isFixed (code code' : Runnable) {i : Instruction} (fixed : i.isFixed = true) :
    execute code i = execute code' i := by
  apply execute_congr
  rw [nameOperand_of_isFixed code fixed, nameOperand_of_isFixed code' fixed]

/-- An instruction with a name depends on the text of the name only. -/
theorem execute_named {code code' : Runnable} (op : Op) {n n' : Nat} {text : String}
    (extra : Option Operand) (found : code.names.bind (·.get? n) = some text)
    (found' : code'.names.bind (·.get? n') = some text) :
    execute code { op := op, operand := some (.name n), extra := extra } =
      execute code' { op := op, operand := some (.name n'), extra := extra } := by
  have name : nameOperand code { op := op, operand := some (.name n), extra := extra } =
      nameOperand code' { op := op, operand := some (.name n'), extra := extra } := by
    simp only [nameOperand, found, found']
  unfold execute
  rw [name]
  cases op <;> rfl

end Step

end StackScript
