import StackScript.Proofs.Machine.Steady
import StackScript.Proofs.Meaning.Evaluate

/-!
# What a step does to the stack

A step as an action on the stack and the state of the machine, without offsets. Part of each step is
evaluation on the machine alone, and the rest takes slots from the stack or puts slots on it; so a
step is carried out by rewriting, slot by slot.
-/

namespace StackScript

namespace Step

/-- What a step does to the stack and the machine. -/
def acts (step : Step Unit) (stack : List Slot) : Evaluate (List Slot) :=
  fun m =>
    match step { machine := m, stack, offset := 0 } with
    | .ok () r => .ok r.stack r.machine
    | .error stop r => .error stop r.machine

/-- Evaluation on the machine, apart from the stack. -/
def embed {α : Type} (x : Evaluate α) : Step α :=
  fun r =>
    match x r.machine with
    | .ok a m => .ok a { r with machine := m }
    | .error stop m => .error stop { r with machine := m }

section Embed

variable {α β : Type}

/-- Evaluation on the machine goes step by step. -/
theorem embed_bind (x : Evaluate α) (f : α → Evaluate β) :
    embed (x >>= f) = embed x >>= fun a => embed (f a) := by
  funext r
  simp only [embed, Bind.bind, EStateM.bind]
  cases x r.machine <;> rfl

@[simp] theorem machine_eq : machine = embed get := rfl

@[simp] theorem setMachine_eq (m : Machine) : setMachine m = embed (set m) := rfl

@[simp] theorem lift_eq (result : Except Fault α) :
    lift result = embed (Evaluate.lift result) := by
  cases result <;> rfl

/-- A step reads a place as evaluation does. -/
@[simp] theorem read_eq (r : Reference) : read r = embed (Evaluate.read r) := by
  rw [Evaluate.read, embed_bind]
  refine bind_congr fun m => ?_
  cases m.read r <;> rfl

/-- A step writes a place as evaluation does. -/
@[simp] theorem write_eq (r : Reference) (value : Value) :
    write r value = embed (Evaluate.write r value) := by
  simp only [write, Evaluate.write, embed_bind, machine_eq, lift_eq, setMachine_eq]

/-- A step calls as evaluation does, and pushes the answer. -/
theorem machine_call_eq (callee : Value) (arguments : List Value) :
    (do
      let (result, m) ← lift ((← machine).call callee arguments)
      setMachine m
      push result) = embed (Evaluate.call callee arguments) >>= push := by
  rw [Evaluate.call, embed_bind, bind_assoc]
  refine bind_congr fun m => ?_
  rw [embed_bind, bind_assoc, lift_eq]
  rfl

/-- A step takes the type of a place as evaluation does. -/
theorem machine_typeOf_eq (r : Reference) :
    (do
      match (← machine).read r with
      | .ok value => push (.string value.typeName)
      | .error (.outcome _) => push (.string Value.undefined.typeName)
      | .error stop => throw stop) = embed (Evaluate.typeOf r) >>= push := by
  rw [Evaluate.typeOf, embed_bind, bind_assoc]
  refine bind_congr fun m => ?_
  cases m.read r with
  | ok value => rfl
  | error stop => cases stop <;> rfl

end Embed

section Acts

variable {α : Type} {v : Value} {r : Reference} {slot : Slot} {stack : List Slot}

@[simp] theorem acts_push : (push v).acts stack = pure (.value v :: stack) := rfl

@[simp] theorem acts_pop_bind (f : Slot → Step Unit) :
    (pop >>= f).acts (slot :: stack) = (f slot).acts stack := rfl

@[simp] theorem acts_peek_bind (f : Slot → Step Unit) :
    (peek >>= f).acts (slot :: stack) = (f slot).acts (slot :: stack) := rfl

@[simp] theorem acts_asValue_bind (f : Value → Step Unit) :
    (asValue (.value v) >>= f).acts stack = (f v).acts stack := rfl

@[simp] theorem acts_asReference_bind (f : Reference → Step Unit) :
    (asReference (.reference r) >>= f).acts stack = (f r).acts stack := rfl

@[simp] theorem acts_popValue_bind (f : Value → Step Unit) :
    (popValue >>= f).acts (.value v :: stack) = (f v).acts stack := rfl

@[simp] theorem acts_popReference_bind (f : Reference → Step Unit) :
    (popReference >>= f).acts (.reference r :: stack) = (f r).acts stack := rfl

/-- What is done with the machine leaves the stack to the rest. -/
@[simp] theorem acts_embed_bind (x : Evaluate α) (f : α → Step Unit) :
    (embed x >>= f).acts stack = x >>= fun a => (f a).acts stack := by
  funext m
  simp only [acts, embed, Bind.bind, EStateM.bind]
  cases x m <;> rfl

@[simp] theorem acts_embed (x : Evaluate Unit) :
    (embed x).acts stack = x >>= fun _ => pure stack := by
  funext m
  simp only [acts, embed, Bind.bind, EStateM.bind]
  cases x m <;> rfl

/-- Slots that are values are taken as values. -/
theorem mapM_asValue_map (values : List Value) (s : Running) :
    (values.map Slot.value).mapM asValue s = .ok values s := by
  induction values with
  | nil => rfl
  | cons v values ih =>
    rw [List.map_cons, List.mapM_cons]
    simp only [asValue, Bind.bind, EStateM.bind, Pure.pure, EStateM.pure, ih]

/-- Values are taken in the order in which they were pushed. -/
@[simp] theorem acts_popValues_bind (values : List Value) (f : List Value → Step Unit) :
    (popValues values.length >>= f).acts ((values.map Slot.value).reverse ++ stack) =
      (f values).acts stack := by
  funext m
  simp only [acts, Bind.bind, EStateM.bind]
  rw [popValues_apply, if_neg (by simp)]
  have taken : (((values.map Slot.value).reverse ++ stack).take values.length).reverse =
      values.map Slot.value := by
    rw [List.take_left' (by simp), List.reverse_reverse]
  have left : ((values.map Slot.value).reverse ++ stack).drop values.length = stack :=
    List.drop_left' (by simp)
  simp only [taken, left, mapM_asValue_map]

/-- The value that a slot gives to a call. -/
def callee : Slot → Evaluate Value
  | .value v => pure v
  | .reference r => Evaluate.read r

/-- A call takes its arguments and what is called from the stack, and leaves the answer. -/
theorem acts_call {i : Instruction} (values : List Value)
    (counts : i.operand = some (.count values.length)) :
    (call i).acts ((values.map Slot.value).reverse ++ slot :: stack) =
      callee slot >>= fun v => Evaluate.call v values >>= fun w => pure (.value w :: stack) := by
  have counted : countOperand i = pure values.length := by simp [countOperand, counts]
  unfold call
  simp only [counted, pure_bind, acts_popValues_bind, acts_pop_bind, machine_call_eq]
  cases slot with
  | value v => simp only [callee, pure_bind, acts_embed_bind, acts_push]
  | reference r => simp only [callee, read_eq, acts_embed_bind, acts_push]

/-- An update takes a place, and leaves the old number or the new one. -/
theorem acts_update {i : Instruction} {delta : Float} :
    (update i delta).acts (.reference r :: stack) =
      (do
        let old := (← Evaluate.read r).toNumber
        Evaluate.write r (.number (old + delta))
        return .value (.number (if i.op.givesNew then old + delta else old)) :: stack) := by
  unfold update
  simp only [acts_popReference_bind, read_eq, write_eq, acts_embed_bind, acts_push]

end Acts

end Step

end StackScript
