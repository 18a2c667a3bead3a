import Mathlib.Data.List.Forall2
import StackScript.Proofs.Machine.Steps
import StackScript.Proofs.Segment.Operands
import StackScript.Proofs.Segment.Shape
import StackScript.Proofs.StackCheck.Reachable

/-!
# The slots of a run

What an instruction does to the stack of the machine, slot by slot: it takes the slots that its
operation says from the top, and puts slots of the kinds that its operation says in their place. If
there are enough slots, a step does not lose track of the stack. If they are of the right kinds as
well, and so are the operands, then no step meets a slot or an operand of the wrong kind.

Both are one argument, with the kinds as a hypothesis that may or may not be given.
-/

namespace StackScript

/-- What the slot holds. -/
def Slot.kind : Slot → SlotKind
  | .value _ => .value
  | .reference _ => .reference

/-- The slot is of the kind, as far as kinds are known. -/
def Slot.Suits (typed : Prop) (slot : Slot) (kind : SlotKind) : Prop :=
  typed → slot.kind = kind

namespace Fault

/-- The run has lost its place in the code, or the height of its stack. -/
def isLost : Fault → Bool
  | .outsideCode _ | .emptyStack | .shortStack | .unbalancedReturn _ | .unpatchedJump => true
  | _ => false

/-- An instruction has met a slot or an operand of another kind than it takes. -/
def isMistyped : Fault → Bool
  | .expectedValue | .expectedReference | .badOperand _ => true
  | _ => false

end Fault

/-- A run may stop like this. If kinds are known, they are never wrong. -/
def Stop.Allowed (typed : Prop) : Stop → Prop
  | .outcome _ => True
  | .fault f => f.isLost = false ∧ (typed → f.isMistyped = false)

/-- A reference is met in the place of a value only where kinds are not known. -/
theorem Stop.allowed_expectedValue {typed : Prop} {r : Reference}
    (suits : (Slot.reference r).Suits typed .value) : (Stop.fault .expectedValue).Allowed typed :=
  ⟨rfl, fun known => SlotKind.noConfusion (suits known)⟩

/-- A value in the place of a reference is met only if kinds are not known. -/
theorem Stop.allowed_expectedReference {typed : Prop} {v : Value}
    (suits : (Slot.value v).Suits typed .reference) :
    (Stop.fault .expectedReference).Allowed typed :=
  ⟨rfl, fun known => SlotKind.noConfusion (suits known)⟩

namespace Step

variable {α β : Type} {typed : Prop} {stack : List Slot}

/-- From the given stack the step ends with the condition, at the offset where it began, or it stops
    as a run may stop. -/
def Safe (typed : Prop) (step : Step α) (stack : List Slot) (post : α → List Slot → Prop) : Prop :=
  ∀ (m : Machine) (o : Nat), match step ⟨m, stack, o⟩ with
    | .ok a r => post a r.stack ∧ r.offset = o
    | .error stop _ => stop.Allowed typed

section Safe

/-- One step after another. -/
theorem Safe.bind {step : Step α} {rest : α → Step β} {mid : α → List Slot → Prop}
    {post : β → List Slot → Prop} (first : Safe typed step stack mid)
    (second : ∀ a s, mid a s → Safe typed (rest a) s post) :
    Safe typed (step >>= rest) stack post := by
  intro m o
  have done := first m o
  simp only [Bind.bind, EStateM.bind]
  cases h : step ⟨m, stack, o⟩ with
  | ok a r =>
    rw [h] at done
    obtain ⟨reached, rfl⟩ := done
    exact second a r.stack reached r.machine r.offset
  | error stop r =>
    rw [h] at done
    exact done

/-- The stack after the first step is known. -/
theorem Safe.andThen {step : Step α} {rest : α → Step β} {post : β → List Slot → Prop}
    {stack' : List Slot} (first : Safe typed step stack fun _ s => s = stack')
    (second : ∀ a, Safe typed (rest a) stack' post) : Safe typed (step >>= rest) stack post := by
  refine first.bind ?_
  rintro a _ rfl
  exact second a

theorem Safe.mono {step : Step α} {post post' : α → List Slot → Prop}
    (h : Safe typed step stack post) (weaken : ∀ a s, post a s → post' a s) :
    Safe typed step stack post' := by
  intro m o
  have done := h m o
  split at done
  · exact ⟨weaken _ _ done.1, done.2⟩
  · exact done

theorem safe_pure {post : α → List Slot → Prop} {a : α} (h : post a stack) :
    Safe typed (pure a) stack post :=
  fun _ _ => ⟨h, rfl⟩

/-- To stop for a reason that is allowed. -/
theorem safe_throw {post : α → List Slot → Prop} {stop : Stop} (h : stop.Allowed typed) :
    Safe typed (throw stop : Step α) stack post :=
  fun _ _ => h

theorem safe_machine : Safe typed machine stack fun _ s => s = stack :=
  fun _ _ => ⟨rfl, rfl⟩

theorem safe_setMachine (m : Machine) : Safe typed (setMachine m) stack fun _ s => s = stack :=
  fun _ _ => ⟨rfl, rfl⟩

theorem safe_pushSlot (slot : Slot) :
    Safe typed (pushSlot slot) stack fun _ s => s = slot :: stack :=
  fun _ _ => ⟨rfl, rfl⟩

/-- The topmost slot is taken if there is one. -/
theorem safe_pop (slot : Slot) :
    Safe typed pop (slot :: stack) fun a s => a = slot ∧ s = stack :=
  fun _ _ => ⟨⟨rfl, rfl⟩, rfl⟩

theorem safe_peek (slot : Slot) :
    Safe typed peek (slot :: stack) fun a s => a = slot ∧ s = slot :: stack :=
  fun _ _ => ⟨⟨rfl, rfl⟩, rfl⟩

variable {slot : Slot}

/-- A slot that suits is a value. -/
theorem safe_asValue (suits : slot.Suits typed .value) :
    Safe typed (asValue slot) stack fun _ s => s = stack := by
  cases slot with
  | value v => exact safe_pure rfl
  | reference r => exact safe_throw (Stop.allowed_expectedValue suits)

/-- A slot that suits is a reference. -/
theorem safe_asReference (suits : slot.Suits typed .reference) :
    Safe typed (asReference slot) stack fun _ s => s = stack := by
  cases slot with
  | value v => exact safe_throw (Stop.allowed_expectedReference suits)
  | reference r => exact safe_pure rfl

theorem safe_popValue (suits : slot.Suits typed .value) :
    Safe typed popValue (slot :: stack) fun _ s => s = stack := by
  refine (safe_pop slot).bind ?_
  rintro _ _ ⟨rfl, rfl⟩
  exact safe_asValue suits

theorem safe_popReference (suits : slot.Suits typed .reference) :
    Safe typed popReference (slot :: stack) fun _ s => s = stack := by
  refine (safe_pop slot).bind ?_
  rintro _ _ ⟨rfl, rfl⟩
  exact safe_asReference suits

theorem safe_mapM_asValue {slots : List Slot} (suit : ∀ slot ∈ slots, slot.Suits typed .value) :
    Safe typed (slots.mapM asValue) stack fun _ s => s = stack := by
  induction slots with
  | nil => exact safe_pure rfl
  | cons slot slots ih =>
    rw [List.forall_mem_cons] at suit
    rw [List.mapM_cons]
    exact (safe_asValue suit.1).andThen fun _ => (ih suit.2).andThen fun _ => safe_pure rfl

/-- As many values are taken as there are above the rest. -/
theorem safe_popValues {top : List Slot} {n : Nat}
    (suits : List.Forall₂ (Slot.Suits typed) top (.replicate n .value)) :
    Safe typed (popValues n) (top ++ stack) fun _ s => s = stack := by
  have length : top.length = n := by simpa using suits.length_eq
  have suit : ∀ slot ∈ top.reverse, slot.Suits typed .value := by
    intro slot hslot
    obtain ⟨k, hk, rfl⟩ := List.mem_iff_getElem.mp (List.mem_reverse.mp hslot)
    simpa using suits.get hk (by simpa [length] using hk)
  intro m o
  have inner : Safe typed (top.reverse.mapM asValue) stack fun _ s => s = stack :=
    safe_mapM_asValue suit
  rw [popValues_apply, if_neg (by simp [length])]
  have taken : (top ++ stack).take n = top := List.take_left' length
  have left : (top ++ stack).drop n = stack := List.drop_left' length
  simp only [taken, left]
  exact inner m o

end Safe

/-! ## What is done with the machine -/

/-- A fault that is about what the machine holds. -/
theorem property_allowed {m : Machine} {value : Value} {key : String} {f : Fault}
    (h : m.property value key = .error f) : (Stop.fault f).Allowed typed := by
  cases value with
  | object id =>
    simp only [Machine.property, Machine.object] at h
    cases hid : m.objects[id]? with
    | some properties => simp [hid, Except.map] at h
    | none =>
      simp only [hid, Except.map, Except.error.injEq] at h
      exact h ▸ ⟨rfl, fun _ => rfl⟩
  | _ => cases h

/-- Reading a place does not fail for the stack or the code. -/
theorem read_allowed {m : Machine} {r : Reference} {stop : Stop} (h : m.read r = .error stop) :
    stop.Allowed typed := by
  cases r with
  | name text =>
    simp only [Machine.read] at h
    split at h
    · cases h
    · cases h
      exact trivial
  | property id key =>
    simp only [Machine.read] at h
    cases hp : m.property (.object id) key with
    | ok value => simp [hp, Except.mapError] at h
    | error f =>
      simp only [hp, Except.mapError, Except.error.injEq] at h
      exact h ▸ property_allowed hp

theorem setProperty_allowed {m : Machine} {id : Nat} {key : String} {value : Value} {f : Fault}
    (h : m.setProperty id key value = .error f) : (Stop.fault f).Allowed typed := by
  simp only [Machine.setProperty] at h
  split at h
  · cases h
  · cases h
    exact ⟨rfl, fun _ => rfl⟩

/-- Nor does writing. -/
theorem write_allowed {m : Machine} {r : Reference} {value : Value} {f : Fault}
    (h : m.write r value = .error f) : (Stop.fault f).Allowed typed := by
  cases r with
  | name text => cases h
  | property id key => exact setProperty_allowed h

/-- Nor does calling. -/
theorem call_allowed {m : Machine} {callee : Value} {arguments : List Value} {f : Fault}
    (h : m.call callee arguments = .error f) : (Stop.fault f).Allowed typed := by
  cases callee with
  | native id =>
    simp only [Machine.call] at h
    split at h
    · cases h
    · cases h
      exact ⟨rfl, fun _ => rfl⟩
  | _ =>
    cases h
    exact ⟨rfl, fun _ => rfl⟩

/-- What the machine does leaves the stack as it is. -/
theorem safe_lift {result : Except Fault α}
    (allowed : ∀ f, result = .error f → (Stop.fault f).Allowed typed) :
    Safe typed (lift result) stack fun _ s => s = stack := by
  cases result with
  | ok a => exact safe_pure rfl
  | error f => exact safe_throw (allowed f rfl)

theorem safe_read (r : Reference) : Safe typed (read r) stack fun _ s => s = stack := by
  refine safe_machine.andThen fun m => ?_
  cases h : m.read r with
  | ok value => exact safe_pure rfl
  | error stop => exact safe_throw (read_allowed h)

theorem safe_write (r : Reference) (value : Value) :
    Safe typed (write r value) stack fun _ s => s = stack :=
  safe_machine.andThen fun _ => (safe_lift fun _ => write_allowed).andThen safe_setMachine

/-! ## Instructions -/

variable {code : Runnable} {i : Instruction} {top rest : List Slot}

/-- An operand of another kind is met only where the kinds are not known. -/
theorem safe_badOperand {kind : OperandKind} {post : α → List Slot → Prop}
    (right : typed → i.HasOperands) (needs : i.op.operandKinds.1 = some kind)
    (other : ∀ operand, i.operand = some operand → operand.kind ≠ kind) :
    Safe typed (fault (.badOperand i.op) : Step α) stack post := by
  refine safe_throw ⟨rfl, fun known => ?_⟩
  obtain ⟨operand, found, same⟩ := (right known).exists_operand needs
  exact absurd same (other operand found)

/-- The operand that is a name, if operands are known to be right. -/
theorem safe_nameOperand (right : typed → i.HasOperands)
    (needs : i.op.operandKinds.1 = some .name) :
    Safe typed (nameOperand code i) stack fun _ s => s = stack := by
  unfold nameOperand
  split
  · split
    · exact safe_pure rfl
    · exact safe_throw ⟨rfl, fun _ => rfl⟩
  · rename_i other
    refine safe_badOperand right needs fun operand found same => ?_
    cases operand <;> cases same
    exact other _ found

/-- The operand that is a count. -/
theorem safe_countOperand (right : typed → i.HasOperands)
    (needs : i.op.operandKinds.1 = some .count) :
    Safe typed (countOperand i) stack fun n s => n = i.count ∧ s = stack := by
  unfold countOperand
  split
  · rename_i n hn
    exact safe_pure ⟨by rw [Instruction.count, hn], rfl⟩
  · rename_i other
    refine safe_badOperand right needs fun operand found same => ?_
    cases operand <;> cases same
    exact other _ found

/-- Slots of the kinds that the instruction gives stand on the rest. -/
def Given (i : Instruction) (rest : List Slot) (s : List Slot) : Prop :=
  ∃ new, s = new ++ rest ∧ new.map Slot.kind = i.gives

/-- An instruction that gives a value. -/
theorem safe_push (v : Value) (gives : i.gives = [.value]) :
    Safe typed (push v) rest fun _ s => Given i rest s :=
  (safe_pushSlot (.value v)).mono fun _ _ h => ⟨[.value v], h, gives.symm⟩

/-- An instruction that gives a reference. -/
theorem safe_pushReference (r : Reference) (gives : i.gives = [.reference]) :
    Safe typed (pushSlot (.reference r)) rest fun _ s => Given i rest s :=
  (safe_pushSlot (.reference r)).mono fun _ _ h => ⟨[.reference r], h, gives.symm⟩

theorem safe_pushNew (properties : Bindings) (gives : i.gives = [.value]) :
    Safe typed (pushNew properties) rest fun _ s => Given i rest s :=
  safe_machine.andThen fun _ => (safe_setMachine _).andThen fun _ => safe_push _ gives

/-- A call takes its arguments, and a callee of either kind below them. -/
theorem safe_call {kind : SlotKind} (right : typed → i.HasOperands)
    (needs : i.op.operandKinds.1 = some .count)
    (suits : List.Forall₂ (Slot.Suits typed) top (.replicate i.count .value ++ [kind]))
    (gives : i.gives = [.value]) :
    Safe typed (call i) (top ++ rest) fun _ s => Given i rest s := by
  have arguments := List.forall₂_take_append _ _ _ suits
  have callee := List.forall₂_drop_append _ _ _ suits
  rw [List.length_replicate] at arguments callee
  rw [← List.take_append_drop i.count top, List.append_assoc]
  generalize top.take i.count = above at arguments
  generalize top.drop i.count = below at callee
  obtain _ | ⟨-, ⟨⟩⟩ := callee
  refine (safe_countOperand right needs).bind ?_
  rintro _ _ ⟨rfl, rfl⟩
  refine (safe_popValues arguments).andThen fun values => (safe_pop _).bind ?_
  rintro slot rest ⟨rfl, rfl⟩
  have called (v : Value) : Safe typed (machine >>= fun m =>
      lift (m.call v values) >>= fun answer => setMachine answer.2 >>= fun _ => push answer.1)
      rest fun _ s => Given i rest s :=
    safe_machine.andThen fun m => (safe_lift fun _ => call_allowed).andThen fun answer =>
      (safe_setMachine answer.2).andThen fun _ => safe_push answer.1 gives
  cases slot with
  | value v => exact called v
  | reference r => exact (safe_read r).andThen called

/-- A reference is replaced by a number. -/
theorem safe_update (delta : Float) {slot : Slot} (suits : slot.Suits typed .reference)
    (gives : i.gives = [.value]) :
    Safe typed (update i delta) (slot :: rest) fun _ s => Given i rest s :=
  (safe_popReference suits).andThen fun r => (safe_read r).andThen fun _ =>
    (safe_write r _).andThen fun _ => safe_push _ gives

/-- The operations on values that the machine has, and those that it does not have. -/
theorem safe_compute (suits : List.Forall₂ (Slot.Suits typed) top i.takes)
    (binary : i.op.binary?.isSome = true → i.takes = [.value, .value])
    (unary : i.op.unary?.isSome = true → i.takes = [.value])
    (step : i.op.step?.isSome = true → i.takes = [.reference]) (gives : i.gives = [.value]) :
    Safe typed (compute i) (top ++ rest) fun _ s => Given i rest s := by
  unfold compute
  cases hbinary : i.op.binary? with
  | some f =>
    rw [binary (by rw [hbinary]; rfl)] at suits
    obtain _ | ⟨right, _ | ⟨left, ⟨⟩⟩⟩ := suits
    exact (safe_popValue right).andThen fun _ => (safe_popValue left).andThen fun _ =>
      safe_push _ gives
  | none =>
    cases hunary : i.op.unary? with
    | some f =>
      rw [unary (by rw [hunary]; rfl)] at suits
      obtain _ | ⟨value, ⟨⟩⟩ := suits
      exact (safe_popValue value).andThen fun _ => safe_push _ gives
    | none =>
      cases hstep : i.op.step? with
      | some delta =>
        rw [step (by rw [hstep]; rfl)] at suits
        obtain _ | ⟨reference, ⟨⟩⟩ := suits
        exact safe_update delta reference gives
      | none => exact safe_throw ⟨rfl, fun _ => rfl⟩

/-- An instruction that neither jumps nor returns puts what it gives in the place of what it
    takes. -/
theorem safe_execute (code : Runnable) (goesOn : i.op.goesOn = true)
    (suits : List.Forall₂ (Slot.Suits typed) top i.takes) (right : typed → i.HasOperands) :
    Safe typed (execute code i) (top ++ rest) fun _ s => Given i rest s := by
  obtain ⟨op, operand, extra⟩ := i
  cases op with
  | jump | jumpIfFalse | jumpIfFalseOrPop | jumpIfTrueOrPop | ret => cases goesOn
  | pushUndefined | pushNull | pushTrue | pushFalse | pushThis =>
    obtain ⟨⟩ := suits
    exact safe_push _ rfl
  | pushNumber | pushString =>
    obtain ⟨⟩ := suits
    dsimp only [execute]
    split
    · exact safe_push _ rfl
    · rename_i other
      refine safe_badOperand right rfl fun operand found same => ?_
      cases operand <;> cases same
      exact other _ found
  | pushName =>
    obtain ⟨⟩ := suits
    exact (safe_nameOperand right rfl).andThen fun _ => safe_push _ rfl
  | pop =>
    obtain _ | ⟨-, ⟨⟩⟩ := suits
    exact (safe_pop _).bind fun _ _ h => safe_pure ⟨[], h.2, rfl⟩
  | loadName =>
    obtain ⟨⟩ := suits
    exact (safe_nameOperand right rfl).andThen fun _ => (safe_read _).andThen fun _ =>
      safe_push _ rfl
  | storeVar =>
    obtain _ | ⟨value, ⟨⟩⟩ := suits
    refine (safe_nameOperand right rfl).andThen fun _ => (safe_popValue value).andThen fun _ => ?_
    exact (safe_write _ _).mono fun _ _ h => ⟨[], h, rfl⟩
  | resolveName =>
    obtain ⟨⟩ := suits
    exact (safe_nameOperand right rfl).andThen fun _ => safe_pushReference _ rfl
  | resolveIndex =>
    obtain _ | ⟨key, _ | ⟨object, ⟨⟩⟩⟩ := suits
    refine (safe_popValue key).andThen fun _ => (safe_popValue object).andThen fun object => ?_
    cases object with
    | object id => exact safe_pushReference _ rfl
    | _ => exact safe_throw ⟨rfl, fun _ => rfl⟩
  | deref =>
    obtain _ | ⟨reference, ⟨⟩⟩ := suits
    refine (safe_peek _).bind ?_
    rintro slot _ ⟨rfl, rfl⟩
    cases slot with
    | value v => exact fun _ _ => Stop.allowed_expectedReference reference
    | reference r =>
      refine (safe_asReference reference).andThen fun place => (safe_read place).andThen fun v => ?_
      exact (safe_pushSlot (.value v)).mono fun _ _ h => ⟨[.value v, .reference r], h, rfl⟩
  | assign =>
    obtain _ | ⟨value, _ | ⟨reference, ⟨⟩⟩⟩ := suits
    exact (safe_popValue value).andThen fun _ => (safe_popReference reference).andThen fun r =>
      (safe_write r _).andThen fun _ => safe_push _ rfl
  | getMember =>
    obtain _ | ⟨object, ⟨⟩⟩ := suits
    exact (safe_nameOperand right rfl).andThen fun _ => (safe_popValue object).andThen fun _ =>
      safe_machine.andThen fun _ => (safe_lift fun _ => property_allowed).andThen fun _ =>
        safe_push _ rfl
  | getIndex =>
    obtain _ | ⟨key, _ | ⟨object, ⟨⟩⟩⟩ := suits
    exact (safe_popValue key).andThen fun _ => (safe_popValue object).andThen fun _ =>
      safe_machine.andThen fun _ => (safe_lift fun _ => property_allowed).andThen fun _ =>
        safe_push _ rfl
  | setProperty =>
    obtain _ | ⟨value, _ | ⟨object, ⟨⟩⟩⟩ := suits
    refine (safe_nameOperand right rfl).andThen fun _ => (safe_popValue value).andThen fun _ => ?_
    refine (safe_peek _).bind ?_
    rintro slot _ ⟨rfl, rfl⟩
    cases slot with
    | reference r => exact fun _ _ => Stop.allowed_expectedValue object
    | value v =>
      refine (safe_asValue object).andThen fun target => ?_
      cases target with
      | object id =>
        refine safe_machine.andThen fun _ =>
          (safe_lift fun _ => setProperty_allowed).andThen fun m => ?_
        exact (safe_setMachine m).mono fun _ _ h => ⟨[.value v], h, rfl⟩
      | _ => exact safe_throw ⟨rfl, fun _ => rfl⟩
  | newObject =>
    obtain ⟨⟩ := suits
    exact safe_pushNew [] rfl
  | newArray =>
    refine (safe_countOperand right rfl).bind ?_
    rintro _ _ ⟨rfl, rfl⟩
    exact (safe_popValues suits).andThen fun _ => safe_pushNew _ rfl
  | typeOfRef =>
    obtain _ | ⟨reference, ⟨⟩⟩ := suits
    refine (safe_popReference reference).andThen fun r => safe_machine.andThen fun m => ?_
    cases h : m.read r with
    | ok value => exact safe_push _ rfl
    | error stop =>
      cases stop with
      | outcome o => exact safe_push _ rfl
      | fault f => exact safe_throw (read_allowed h)
  | call | callRef => exact safe_call right rfl suits rfl
  | escape | throwMisuse =>
    dsimp only [execute]
    split
    · exact safe_throw trivial
    · rename_i other
      refine safe_badOperand right rfl fun operand found same => ?_
      cases operand <;> cases same
      exact other _ found
  | add | sub | mul | div | mod | shl | shr | ushr | bitAnd | bitOr | bitXor | eq | ne | strictEq
  | strictNe | lt | le | gt | ge | isIn | instanceOf =>
    exact safe_compute suits (fun _ => rfl) nofun nofun rfl
  | neg | plus | not | bitNot | typeOf | void =>
    exact safe_compute suits nofun (fun _ => rfl) nofun rfl
  | preInc | preDec | postInc | postDec =>
    exact safe_compute suits nofun nofun (fun _ => rfl) rfl
  | pushRegExp | pushFunction | construct | constructRef | delete =>
    exact safe_compute suits nofun nofun nofun rfl

end Step

/-! ## Steps -/

/-- Where control goes from the instruction at an offset, and what becomes of a stack on which the
    slots that it takes stand above the rest. -/
inductive Instruction.Leads (i : Instruction) (o : Nat) (top rest : List Slot) : Running → Prop
  | onward {r : Running} (stays : i.op ≠ .ret) (falls : i.op ≠ .jump) (offset : r.offset = o + 1)
      (given : Step.Given i rest r.stack) : Leads i o top rest r
  | taken {r : Running} (jumps : i.op = .jump ∨ i.op = .jumpIfFalse)
      (target : i.target? = some r.offset) (stack : r.stack = rest) : Leads i o top rest r
  /-- The tested value is left on the stack. -/
  | kept {r : Running} (jumps : i.op = .jumpIfFalseOrPop ∨ i.op = .jumpIfTrueOrPop)
      (target : i.target? = some r.offset) (stack : r.stack = top ++ rest) : Leads i o top rest r

namespace Step

variable {typed : Prop} {code : Runnable} {i : Instruction} {top rest : List Slot} {o t : Nat}

/-- A step goes where its instruction leads, or stops as a run may stop. -/
def Ends (typed : Prop) (i : Instruction) (o : Nat) (top rest : List Slot) :
    EStateM.Result Stop Running Unit → Prop
  | .ok () r => i.Leads o top rest r
  | .error stop _ => stop.Allowed typed

/-- A jump with a target leaves all but the offset as it is. -/
theorem jump_eq (target : i.target? = some t) (r : Running) :
    jump i r = .ok () { r with offset := t } := by
  simp only [jump, target]
  rfl

/-- A jump that takes the tested value with it. -/
theorem ends_jumpIfFalse (code : Runnable) (hop : i.op = .jumpIfFalse) (target : i.target? = some t)
    {slot : Slot} (suits : slot.Suits typed .value) (m : Machine) :
    Ends typed i o [slot] rest (execute code i ⟨m, slot :: rest, o + 1⟩) := by
  have executed : execute code i = (do if !(← popValue).truthy then jump i) := by
    rw [execute, hop]
  rw [executed]
  cases slot with
  | reference r => exact Stop.allowed_expectedValue suits
  | value v =>
    have tested :
        (do if !(← popValue).truthy then jump i : Step Unit) ⟨m, .value v :: rest, o + 1⟩ =
        (if !v.truthy then jump i else pure ()) ⟨m, rest, o + 1⟩ := rfl
    rw [tested]
    cases v.truthy with
    | true =>
      exact .onward (by simp [hop]) (by simp [hop]) rfl ⟨[], rfl, by simp [Instruction.gives, hop]⟩
    | false =>
      rw [Bool.not_false, if_pos rfl, jump_eq target]
      exact .taken (.inr hop) target rfl

/-- A jump that leaves the tested value, which is taken when control goes on. -/
theorem ends_jumpOrPop (hop : i.op = .jumpIfFalseOrPop ∨ i.op = .jumpIfTrueOrPop)
    (target : i.target? = some t) {slot : Slot} (suits : slot.Suits typed .value) (truth : Bool)
    (m : Machine) : Ends typed i o [slot] rest (jumpOrPop i truth ⟨m, slot :: rest, o + 1⟩) := by
  cases slot with
  | reference r => exact Stop.allowed_expectedValue suits
  | value v =>
    have tested : jumpOrPop i truth ⟨m, .value v :: rest, o + 1⟩ =
        (if v.truthy = truth then jump i else do let _ ← pop) ⟨m, .value v :: rest, o + 1⟩ := rfl
    rw [tested]
    by_cases decided : v.truthy = truth
    · rw [if_pos decided, jump_eq target]
      exact .kept hop target rfl
    · rw [if_neg decided]
      rcases hop with hop | hop
      all_goals
        exact .onward (by simp [hop]) (by simp [hop]) rfl ⟨[], rfl,
          by simp [Instruction.gives, hop]⟩

/-- After any other instruction control is behind it. -/
theorem ends_of_goesOn (code : Runnable) (goesOn : i.op.goesOn = true)
    (suits : List.Forall₂ (Slot.Suits typed) top i.takes) (right : typed → i.HasOperands)
    (m : Machine) : Ends typed i o top rest (execute code i ⟨m, top ++ rest, o + 1⟩) := by
  have done : Safe typed (execute code i) (top ++ rest) fun _ s => Given i rest s :=
    safe_execute code goesOn suits right
  have stays : i.op ≠ .ret := by
    intro hop
    rw [hop] at goesOn
    cases goesOn
  have falls : i.op ≠ .jump := by
    intro hop
    rw [hop] at goesOn
    cases goesOn
  have ended := done m (o + 1)
  cases h : execute code i ⟨m, top ++ rest, o + 1⟩ with
  | ok _ r =>
    rw [h] at ended
    exact .onward stays falls ended.2 ended.1
  | error stop r =>
    rw [h] at ended
    exact ended

/-- A step that finds the slots it takes, and a target if it jumps, goes where its instruction
    leads. -/
theorem next_ends (found : code.instructions[o]? = some i)
    (suits : List.Forall₂ (Slot.Suits typed) top i.takes) (right : typed → i.HasOperands)
    (known : i.op.isJump = true → ∃ t, i.target? = some t) (balanced : i.op = .ret → rest = [])
    (m : Machine) : Ends typed i o top rest (next code ⟨m, top ++ rest, o⟩) := by
  rw [next_eq found]
  cases hop : i.op with
  | jump =>
    obtain ⟨t, target⟩ := known (by rw [hop]; rfl)
    simp only [Instruction.takes, hop] at suits
    obtain ⟨⟩ := suits
    have executed : execute code i = jump i := by rw [execute, hop]
    rw [executed, jump_eq target]
    exact .taken (.inl hop) target rfl
  | jumpIfFalse =>
    obtain ⟨t, target⟩ := known (by rw [hop]; rfl)
    simp only [Instruction.takes, hop] at suits
    obtain _ | ⟨tested, ⟨⟩⟩ := suits
    exact ends_jumpIfFalse code hop target tested m
  | jumpIfFalseOrPop | jumpIfTrueOrPop =>
    obtain ⟨t, target⟩ := known (by rw [hop]; rfl)
    simp only [Instruction.takes, hop] at suits
    obtain _ | ⟨tested, ⟨⟩⟩ := suits
    unfold execute
    rw [hop]
    exact ends_jumpOrPop (by simp [hop]) target tested _ m
  | ret =>
    obtain rfl := balanced hop
    simp only [Instruction.takes, hop] at suits
    obtain _ | ⟨value, ⟨⟩⟩ := suits
    rename_i slot
    unfold execute
    rw [hop]
    cases slot with
    | value v => exact trivial
    | reference r => exact Stop.allowed_expectedValue value
  | _ => exact ends_of_goesOn code (by rw [hop]; rfl) suits right m

end Step

namespace Running

variable {typed : Prop} {code : Runnable} {P : Running → Prop} {r : Running}

/-- A property that every step keeps, and from which no step stops as it must not, holds all along a
    run. -/
theorem run_keeps
    (keeps : ∀ r, P r → match Step.next code r with
      | .ok () r' => P r'
      | .error stop _ => stop.Allowed typed) (h : P r) :
    (∀ k r', Steps code k r r' → P r') ∧ ∀ budget, (r.run code budget).stop.Allowed typed := by
  constructor
  · intro k
    induction k generalizing r with
    | zero =>
      rintro r' rfl
      exact h
    | succ k ih =>
      rintro r' ⟨mid, next, rest⟩
      have kept := keeps r h
      rw [next] at kept
      exact ih kept r' rest
  · intro budget
    induction budget generalizing r with
    | zero => exact ⟨rfl, fun _ => rfl⟩
    | succ budget ih =>
      have kept := keeps r h
      rw [run]
      cases next : Step.next code r with
      | ok _ r' =>
        rw [next] at kept
        exact ih kept
      | error stop r' =>
        rw [next] at kept
        exact kept

end Running

end StackScript
