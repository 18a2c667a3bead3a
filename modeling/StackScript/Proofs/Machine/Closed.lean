import StackScript.Proofs.Machine.Steps

/-!
# Numbers in range

Objects and native functions are known by their numbers. A machine is closed if every number that it
holds, in a global name or in a property, is in range. Code can hold on to numbers only in the slots
of the stack, so a machine stays closed as long as the native functions answer with numbers in
range: each step keeps the numbers in the machine and on the stack in range, and no step looks for
an object or a native function that is not there.
-/

namespace StackScript

/-! ## What is in range -/

/-- The number of an object or of a native function is in range. -/
def Value.Within (m : Machine) : Value → Prop
  | .object id => id < m.objects.size
  | .native id => id < m.natives.size
  | _ => True

/-- The object of a property is in range. -/
def Reference.Within (m : Machine) : Reference → Prop
  | .name _ => True
  | .property id _ => id < m.objects.size

/-- What the slot holds is in range. -/
def Slot.Within (m : Machine) : Slot → Prop
  | .value v => v.Within m
  | .reference r => r.Within m

/-- The run has not looked for what is not there, and what it returns is in range. -/
def Stop.Within (m : Machine) : Stop → Prop
  | .outcome (.returned v) => v.Within m
  | .fault (.danglingObject _) | .fault (.danglingNative _) => False
  | _ => True

/-- All that the names or properties stand for is in range. -/
def Bindings.Within (m : Machine) (b : Bindings) : Prop :=
  ∀ binding ∈ b, binding.2.Within m

namespace Machine

/-- All that names and properties stand for is in range. -/
structure Closed (m : Machine) : Prop where
  globals : m.globals.Within m
  properties : ∀ object ∈ m.objects, Bindings.Within m object

/-- Objects are only added, and the native functions stay. -/
structure Grows (m m' : Machine) : Prop where
  objects : m.objects.size ≤ m'.objects.size
  natives : m'.natives = m.natives

end Machine

/-- All that the machine and the stack hold is in range. -/
structure Running.Closed (r : Running) : Prop where
  machine : r.machine.Closed
  stack : ∀ slot ∈ r.stack, slot.Within r.machine

namespace Machine.Grows

variable {m m' m'' : Machine}

theorem refl (m : Machine) : m.Grows m :=
  ⟨Nat.le_refl _, rfl⟩

theorem trans (first : m.Grows m') (second : m'.Grows m'') : m.Grows m'' :=
  ⟨Nat.le_trans first.objects second.objects, second.natives.trans first.natives⟩

/-- What is in range stays in range. -/
theorem value (grows : m.Grows m') {v : Value} (within : v.Within m) : v.Within m' := by
  cases v with
  | object id => exact Nat.lt_of_lt_of_le within grows.objects
  | native id =>
    rw [Value.Within, grows.natives]
    exact within
  | _ => exact trivial

/-- So do all bindings. -/
theorem bindings (grows : m.Grows m') {b : Bindings} (within : b.Within m) : b.Within m' :=
  fun binding mem => grows.value (within binding mem)

/-- So does a slot. -/
theorem slot (grows : m.Grows m') {s : Slot} (within : s.Within m) : s.Within m' := by
  cases s with
  | value v => exact grows.value within
  | reference r =>
    cases r with
    | name text => exact trivial
    | property id key => exact Nat.lt_of_lt_of_le within grows.objects

end Machine.Grows

/-! ## Names and properties -/

namespace Bindings

variable {m : Machine} {b : Bindings} {v : Value}

/-- A binding to something in range keeps all bindings in range. -/
theorem Within.set (within : b.Within m) (key : String) (value : v.Within m) :
    (b.set key v).Within m := by
  induction b with
  | nil =>
    intro binding mem
    rw [List.mem_singleton.mp mem]
    exact value
  | cons first rest ih =>
    have later : Bindings.Within m rest :=
      fun binding mem => within binding (List.mem_cons_of_mem _ mem)
    intro binding mem
    rw [Bindings.set] at mem
    split at mem
    · rcases List.mem_cons.mp mem with rfl | mem
      · exact value
      · exact later binding mem
    · rcases List.mem_cons.mp mem with rfl | mem
      · exact within _ List.mem_cons_self
      · exact ih later binding mem

/-- What a name or a property stands for is in range. -/
theorem Within.get? (within : b.Within m) {key : String} (found : b.get? key = some v) :
    v.Within m := by
  obtain ⟨before, after, rfl, -⟩ := List.lookup_eq_some_iff.mp found
  exact within (key, v) (by simp)

end Bindings

/-! ## Reading and writing -/

namespace Machine.Closed

variable {m : Machine} {v : Value}

/-- A property of anything in range can be read, if only as undefined, and is in range. -/
theorem property (closed : m.Closed) (within : v.Within m) (key : String) :
    ∃ result, m.property v key = .ok result ∧ result.Within m := by
  cases v with
  | object id =>
    have found : m.objects[id]? = some m.objects[id] := Array.getElem?_eq_getElem within
    refine ⟨(Bindings.get? m.objects[id] key).getD .undefined,
      by simp [Machine.property, object, found, Except.map], ?_⟩
    cases h : Bindings.get? m.objects[id] key with
    | none => exact trivial
    | some value => exact (closed.properties _ (Array.getElem_mem within)).get? h
  | _ => exact ⟨.undefined, rfl, trivial⟩

/-- A place in range has a value in range, unless it is a name without a value. -/
theorem read (closed : m.Closed) {r : Reference} (within : r.Within m) :
    (∃ value, m.read r = .ok value ∧ value.Within m) ∨
      ∃ text, m.read r = .error (.outcome (.undeclared text)) := by
  cases r with
  | name text =>
    cases h : m.globals.get? text with
    | none => exact .inr ⟨text, by rw [Machine.read, h]⟩
    | some value => exact .inl ⟨value, by rw [Machine.read, h], closed.globals.get? h⟩
  | property id key =>
    obtain ⟨value, found, fits⟩ := closed.property (v := .object id) within key
    refine .inl ⟨value, ?_, fits⟩
    rw [Machine.read, found]
    rfl

/-- The same numbers are in range, and what was written is among them. -/
theorem of_written {m' : Machine} (grows : m.Grows m') (globals : m'.globals.Within m)
    (properties : ∀ object ∈ m'.objects, Bindings.Within m object) : m'.Closed :=
  ⟨grows.bindings globals, fun object mem => grows.bindings (properties object mem)⟩

/-- A property of an object that is there can be set. -/
theorem setProperty (closed : m.Closed) {id : Nat} (there : id < m.objects.size) (key : String)
    (within : v.Within m) :
    ∃ m', m.setProperty id key v = .ok m' ∧ m'.Closed ∧ m.Grows m' := by
  have grows :
      m.Grows { m with objects := m.objects.modify id fun properties => properties.set key v } :=
    ⟨by simp, rfl⟩
  refine ⟨_, if_pos there, of_written grows closed.globals fun object mem => ?_, grows⟩
  obtain ⟨k, lt, rfl⟩ := Array.mem_iff_getElem.mp mem
  rw [Array.size_modify] at lt
  have old := closed.properties m.objects[k] (Array.getElem_mem lt)
  rw [Array.getElem_modify]
  split
  · exact old.set key within
  · exact old

/-- A place that is in range can be written. -/
theorem write (closed : m.Closed) {r : Reference} (place : r.Within m) (within : v.Within m) :
    ∃ m', m.write r v = .ok m' ∧ m'.Closed ∧ m.Grows m' := by
  cases r with
  | name text =>
    have grows : m.Grows (m.setGlobal text v) := ⟨Nat.le_refl _, rfl⟩
    exact ⟨_, rfl, of_written grows (closed.globals.set text within) closed.properties, grows⟩
  | property id key => exact closed.setProperty place key within

/-- A new object with properties in range is no danger to the others. -/
theorem allocate (closed : m.Closed) {properties : Bindings} (within : properties.Within m) :
    (m.allocate properties).Closed ∧ m.Grows (m.allocate properties) := by
  have grows : m.Grows (m.allocate properties) := ⟨by simp [Machine.allocate], rfl⟩
  refine ⟨of_written grows closed.globals fun object mem => ?_, grows⟩
  rcases Array.mem_push.mp mem with mem | rfl
  · exact closed.properties object mem
  · exact within

end Machine.Closed

/-- The elements of an array are its properties. -/
theorem Machine.elements_within {m : Machine} {values : List Value}
    (within : ∀ v ∈ values, v.Within m) :
    Bindings.Within m (elements values) := by
  intro binding mem
  rcases List.mem_append.mp mem with mem | mem
  · obtain ⟨⟨v, i⟩, found, rfl⟩ := List.mem_map.mp mem
    exact within v (List.fst_mem_of_mem_zipIdx found)
  · rw [List.mem_singleton.mp mem]
    exact trivial

/-! ## Steps -/

namespace Step

variable {α β : Type} {m : Machine}

/-- What a step from the machine leaves. -/
def Leaves (m : Machine) (post : α → Machine → Prop) : EStateM.Result Stop Running α → Prop
  | .ok a r => r.Closed ∧ m.Grows r.machine ∧ post a r.machine
  | .error stop r => r.machine.Closed ∧ stop.Within r.machine

/-- From the machine, with all on the stack in range, the step leaves all in range. -/
def Keeps (m : Machine) (step : Step α) (post : α → Machine → Prop) : Prop :=
  ∀ r : Running, r.machine = m → r.Closed → Leaves m post (step r)

/-- The step does not change the machine, and what it gives has the property. -/
def Gives (m : Machine) (step : Step α) (p : α → Prop) : Prop :=
  Keeps m step fun a m' => m' = m ∧ p a

section Rules

variable {step : Step α} {rest : α → Step β} {post : β → Machine → Prop}

/-- The machine may be taken to be closed, since the step starts from it. -/
theorem keeps_of_closed {post : α → Machine → Prop} (h : m.Closed → Keeps m step post) :
    Keeps m step post := by
  rintro r rfl closed
  exact h closed.machine r rfl closed

/-- One step after another. -/
theorem Keeps.bind {mid : α → Machine → Prop} (first : Keeps m step mid)
    (second : ∀ a m', m.Grows m' → mid a m' → Keeps m' (rest a) post) :
    Keeps m (step >>= rest) post := by
  intro r same closed
  have done := first r same closed
  cases h : step r with
  | ok a r' =>
    have joined : (step >>= rest) r = rest a r' := by simp only [Bind.bind, EStateM.bind, h]
    rw [h] at done
    obtain ⟨closed', grows, reached⟩ := done
    have ended := second a r'.machine grows reached r' rfl closed'
    rw [joined]
    cases h' : rest a r' with
    | ok b r'' =>
      rw [h'] at ended
      exact ⟨ended.1, grows.trans ended.2.1, ended.2.2⟩
    | error stop r'' =>
      rw [h'] at ended
      exact ended
  | error stop r' =>
    have joined : (step >>= rest) r = .error stop r' := by simp only [Bind.bind, EStateM.bind, h]
    rw [joined]
    rw [h] at done
    exact done

/-- A step that changes nothing, and another that uses what it gives. -/
theorem Gives.bind {p : α → Prop} (first : Gives m step p)
    (second : ∀ a, p a → Keeps m (rest a) post) :
    Keeps m (step >>= rest) post := by
  refine Keeps.bind first ?_
  rintro a _ - ⟨rfl, given⟩
  exact second a given

theorem Keeps.weaken {post : α → Machine → Prop} (h : Keeps m step post) :
    Keeps m step fun _ _ => True := by
  intro r same closed
  have done := h r same closed
  cases ended : step r with
  | ok a r' =>
    rw [ended] at done
    exact ⟨done.1, done.2.1, trivial⟩
  | error stop r' =>
    rw [ended] at done
    exact done

theorem gives_pure {p : α → Prop} {a : α} (h : p a) : Gives m (pure a) p := by
  rintro r rfl closed
  exact ⟨closed, .refl _, rfl, h⟩

theorem keeps_pure (a : α) : Keeps m (pure a) fun _ _ => True :=
  Keeps.weaken (gives_pure (p := fun _ => True) trivial)

/-- A run may stop for any reason but a missing object or native function. -/
theorem keeps_throw {post : α → Machine → Prop} {stop : Stop} (h : stop.Within m) :
    Keeps m (throw stop) post := by
  rintro r rfl closed
  exact ⟨closed.machine, h⟩

theorem gives_machine : Gives m machine (· = m) := by
  rintro r rfl closed
  exact ⟨closed, .refl _, rfl, rfl⟩

theorem keeps_setMachine {m' : Machine} (closed' : m'.Closed) (grows : m.Grows m') :
    Keeps m (setMachine m') fun _ m'' => m'' = m' := by
  rintro r rfl closed
  exact ⟨⟨closed', fun slot mem => grows.slot (closed.stack slot mem)⟩, grows, rfl⟩

theorem gives_pushSlot {slot : Slot} (within : slot.Within m) :
    Gives m (pushSlot slot) fun _ => True := by
  rintro r rfl closed
  refine ⟨⟨closed.machine, ?_⟩, .refl _, rfl, trivial⟩
  rintro slot' (_ | ⟨_, mem⟩)
  · exact within
  · exact closed.stack slot' mem

/-- What is taken from a closed stack is in range. -/
theorem gives_pop : Gives m pop (Slot.Within m) := by
  rintro ⟨_, stack, o⟩ rfl closed
  cases stack with
  | nil => exact ⟨closed.machine, trivial⟩
  | cons slot rest =>
    have later : ∀ slot ∈ rest, slot.Within _ :=
      fun slot mem => closed.stack slot (List.mem_cons_of_mem _ mem)
    exact ⟨⟨closed.machine, later⟩, .refl _, rfl, closed.stack slot List.mem_cons_self⟩

theorem gives_peek : Gives m peek (Slot.Within m) := by
  rintro ⟨_, stack, o⟩ rfl closed
  cases stack with
  | nil => exact ⟨closed.machine, trivial⟩
  | cons slot rest => exact ⟨closed, .refl _, rfl, closed.stack slot List.mem_cons_self⟩

theorem gives_asValue {slot : Slot} (within : slot.Within m) :
    Gives m (asValue slot) (Value.Within m) := by
  cases slot with
  | value v => exact gives_pure within
  | reference r => exact keeps_throw trivial

theorem gives_asReference {slot : Slot} (within : slot.Within m) :
    Gives m (asReference slot) (Reference.Within m) := by
  cases slot with
  | value v => exact keeps_throw trivial
  | reference r => exact gives_pure within

theorem gives_popValue : Gives m popValue (Value.Within m) :=
  gives_pop.bind fun _ => gives_asValue

theorem gives_popReference : Gives m popReference (Reference.Within m) :=
  gives_pop.bind fun _ => gives_asReference

theorem gives_mapM_asValue {slots : List Slot} (within : ∀ slot ∈ slots, slot.Within m) :
    Gives m (slots.mapM asValue) fun values => ∀ v ∈ values, v.Within m := by
  induction slots with
  | nil => exact gives_pure (by simp)
  | cons slot slots ih =>
    rw [List.forall_mem_cons] at within
    rw [List.mapM_cons]
    refine (gives_asValue within.1).bind fun v first => (ih within.2).bind fun values later =>
      gives_pure ?_
    exact List.forall_mem_cons.mpr ⟨first, later⟩

/-- So are several values at once. -/
theorem gives_popValues (n : Nat) : Gives m (popValues n) fun values =>
    ∀ v ∈ values, v.Within m := by
  rintro ⟨m, stack, o⟩ rfl closed
  rw [popValues_apply]
  split
  · exact ⟨closed.machine, trivial⟩
  · have taken : ∀ slot ∈ (stack.take n).reverse, slot.Within m := fun slot mem =>
      closed.stack slot (List.mem_of_mem_take (List.mem_reverse.mp mem))
    have left : ∀ slot ∈ stack.drop n, slot.Within m :=
      fun slot mem => closed.stack slot (List.mem_of_mem_drop mem)
    exact gives_mapM_asValue taken ⟨m, stack.drop n, o⟩ rfl ⟨closed.machine, left⟩

end Rules

/-! ## What is done with the machine -/

/-- Reading a place gives a value in range, or stops at an undeclared name. -/
theorem gives_read {r : Reference} (within : r.Within m) : Gives m (read r) (Value.Within m) := by
  refine keeps_of_closed fun closed => gives_machine.bind ?_
  rintro _ rfl
  rcases closed.read within with ⟨value, found, fits⟩ | ⟨text, missing⟩
  · rw [found]
    exact gives_pure fits
  · rw [missing]
    exact keeps_throw trivial

/-- Reading a property never stops. -/
theorem gives_property {v : Value} (within : v.Within m) (key : String) :
    Gives m (do lift ((← machine).property v key)) (Value.Within m) := by
  refine keeps_of_closed fun closed => gives_machine.bind ?_
  rintro _ rfl
  obtain ⟨value, found, fits⟩ := closed.property within key
  rw [found]
  exact gives_pure fits

/-- A change of the machine that succeeds and leaves it closed. -/
theorem keeps_change {change : Machine → Except Fault Machine}
    (changed : m.Closed → ∃ m', change m = .ok m' ∧ m'.Closed ∧ m.Grows m') :
    Keeps m (do setMachine (← lift (change (← machine)))) fun _ _ => True := by
  refine keeps_of_closed fun closed => gives_machine.bind ?_
  rintro _ rfl
  obtain ⟨m', done, closed', grows⟩ := changed closed
  rw [done]
  exact (keeps_setMachine closed' grows).weaken

/-- Writing a place that is in range. -/
theorem keeps_write {r : Reference} {v : Value} (place : r.Within m) (within : v.Within m) :
    Keeps m (write r v) fun _ _ => True :=
  keeps_change fun closed => closed.write place within

theorem keeps_push {v : Value} (within : v.Within m) : Keeps m (push v) fun _ _ => True :=
  Keeps.weaken (gives_pushSlot within)

/-- A new object is in range as soon as it is there. -/
theorem keeps_pushNew {properties : Bindings} (within : properties.Within m) :
    Keeps m (pushNew properties) fun _ _ => True := by
  refine keeps_of_closed fun closed => gives_machine.bind ?_
  rintro _ rfl
  obtain ⟨closed', grows⟩ := closed.allocate within
  refine (keeps_setMachine closed' grows).bind ?_
  rintro _ _ - rfl
  exact keeps_push (by simp [Value.Within, Machine.allocate])

/-! ## Instructions -/

variable {code : Runnable} {i : Instruction}

theorem gives_nameOperand (code : Runnable) (i : Instruction) :
    Gives m (nameOperand code i) fun _ => True := by
  unfold nameOperand
  split
  · split
    · exact gives_pure trivial
    · exact keeps_throw trivial
  · exact keeps_throw trivial

theorem gives_countOperand (i : Instruction) : Gives m (countOperand i) fun _ => True := by
  unfold countOperand
  split
  · exact gives_pure trivial
  · exact keeps_throw trivial

theorem keeps_jump (i : Instruction) : Keeps m (jump i) fun _ _ => True := by
  unfold jump
  split
  · rintro r rfl closed
    exact ⟨⟨closed.machine, closed.stack⟩, .refl _, trivial⟩
  · exact keeps_throw trivial

theorem keeps_jumpOrPop (i : Instruction) (truth : Bool) :
    Keeps m (jumpOrPop i truth) fun _ _ => True := by
  refine gives_peek.bind fun slot within => (gives_asValue within).bind fun v _ => ?_
  split
  · exact keeps_jump i
  · exact gives_pop.bind fun _ _ => keeps_pure ()

/-- A place is read, and written with a number. -/
theorem keeps_update (i : Instruction) (delta : Float) :
    Keeps m (update i delta) fun _ _ => True := by
  refine gives_popReference.bind fun r place => (gives_read place).bind fun old _ => ?_
  refine Keeps.bind (keeps_write place ?_) fun _ _ _ _ => keeps_push ?_
  · exact trivial
  · exact trivial

/-- What is computed of two values is a number, a truth value or a text. -/
theorem binary_within {op : Op} {f : Value → Value → Value} (found : op.binary? = some f)
    (a b : Value) :
    (f a b).Within m := by
  cases op <;> cases found
  case add =>
    unfold Value.add
    split <;> exact trivial
  all_goals exact trivial

/-- No operation on one value makes an object. -/
theorem unary_within {op : Op} {f : Value → Value} (found : op.unary? = some f) (a : Value) :
    (f a).Within m := by
  cases op <;> cases found <;> exact trivial

/-- Operations give values that are neither objects nor native functions. -/
theorem keeps_compute (i : Instruction) : Keeps m (compute i) fun _ _ => True := by
  unfold compute
  split
  · next found =>
      exact gives_popValue.bind fun b _ => gives_popValue.bind fun a _ =>
      keeps_push (binary_within found a b)
  · next found _ => exact gives_popValue.bind fun a _ => keeps_push (unary_within found a)
  · exact keeps_update i _
  · exact keeps_throw trivial

/-- Every instruction but a call keeps everything in range, whatever its operands are. -/
theorem keeps_execute (code : Runnable) {i : Instruction}
    (silent : i.op ≠ .call ∧ i.op ≠ .callRef) :
    Keeps m (execute code i) fun _ _ => True := by
  have name := gives_nameOperand (m := m) code i
  unfold execute
  cases hop : i.op with
  | call | callRef => simp [hop] at silent
  | pushUndefined | pushNull | pushTrue | pushFalse | pushThis => exact keeps_push trivial
  | pushNumber | pushString =>
    dsimp only
    split
    · exact keeps_push trivial
    · exact keeps_throw trivial
  | pushName => exact name.bind fun _ _ => keeps_push trivial
  | pop => exact gives_pop.bind fun _ _ => keeps_pure ()
  | loadName =>
    exact name.bind fun text _ => (gives_read (r := .name text) trivial).bind fun _ => keeps_push
  | storeVar => exact name.bind fun _ _ => gives_popValue.bind fun _ => keeps_write trivial
  | resolveName => exact name.bind fun _ _ => Keeps.weaken (gives_pushSlot trivial)
  | resolveIndex =>
    refine gives_popValue.bind fun key _ => gives_popValue.bind fun object within => ?_
    cases object with
    | object id => exact Keeps.weaken (gives_pushSlot within)
    | _ => exact keeps_throw trivial
  | deref =>
    exact gives_peek.bind fun _ within => (gives_asReference within).bind fun _ place =>
      (gives_read place).bind fun _ => keeps_push
  | assign =>
    refine gives_popValue.bind fun v within => gives_popReference.bind fun r place => ?_
    exact Keeps.bind (keeps_write place within) fun _ _ grows _ => keeps_push (grows.value within)
  | getMember =>
    exact name.bind fun _ _ => gives_popValue.bind fun _ within =>
      (gives_property within _).bind fun _ => keeps_push
  | getIndex =>
    exact gives_popValue.bind fun _ _ => gives_popValue.bind fun _ within =>
      (gives_property within _).bind fun _ => keeps_push
  | setProperty =>
    refine name.bind fun key _ => gives_popValue.bind fun v within =>
      gives_peek.bind fun slot below =>
      (gives_asValue below).bind fun object there => ?_
    cases object with
    | object id => exact keeps_change fun closed => closed.setProperty there key within
    | _ => exact keeps_throw trivial
  | newObject => exact keeps_pushNew (by simp [Bindings.Within])
  | newArray =>
    exact (gives_countOperand i).bind fun n _ => (gives_popValues n).bind fun _ within =>
      keeps_pushNew (Machine.elements_within within)
  | typeOfRef =>
    refine gives_popReference.bind fun r place => keeps_of_closed fun closed =>
      gives_machine.bind ?_
    rintro _ rfl
    rcases closed.read place with ⟨value, found, -⟩ | ⟨text, missing⟩
    · rw [found]
      exact keeps_push trivial
    · rw [missing]
      exact keeps_push trivial
  | jump => exact keeps_jump i
  | jumpIfFalse =>
    refine gives_popValue.bind fun v _ => ?_
    split
    · exact keeps_jump i
    · exact keeps_pure ()
  | jumpIfFalseOrPop | jumpIfTrueOrPop => exact keeps_jumpOrPop i _
  | escape | throwMisuse =>
    dsimp only
    split
    · exact keeps_throw trivial
    · exact keeps_throw trivial
  | ret =>
    intro r same closed
    have executed : (do
        let depth := (← get).stack.length
        if depth = 1 then finish (.returned (← popValue)) else fault (.unbalancedReturn depth) :
          Step Unit) r =
        (if r.stack.length = 1 then popValue >>= fun v => finish (.returned v)
          else fault (.unbalancedReturn r.stack.length) : Step Unit) r := rfl
    dsimp only
    rw [executed]
    split
    · have returned : Keeps m (popValue >>= fun v => (finish (.returned v) : Step Unit)) fun _ _ =>
          True :=
        gives_popValue.bind fun v within => keeps_throw within
      exact returned r same closed
    · have unbalanced : Keeps m (fault (.unbalancedReturn r.stack.length) : Step Unit) fun _ _ =>
          True :=
        keeps_throw trivial
      exact unbalanced r same closed
  | _ => exact keeps_compute i

/-! ## Calls -/

/-- What is called, behind the values that it is called with. -/
def calledWith (i : Instruction) : Step (List Value × Value) := do
  let arguments ← popValues (← countOperand i)
  match (← pop) with
  | .value v => return (arguments, v)
  | .reference r => return (arguments, ← read r)

/-- Calls the value, and pushes what it answers. -/
def answer (called : List Value × Value) : Step Unit := do
  let (result, m) ← lift ((← machine).call called.2 called.1)
  setMachine m
  push result

/-- A call takes its arguments and the function first, and then asks the function. -/
theorem call_eq (i : Instruction) : call i = calledWith i >>= answer := by
  simp only [call, calledWith, bind_assoc]
  refine bind_congr fun n => bind_congr fun arguments => bind_congr fun slot => ?_
  cases slot with
  | value v => rfl
  | reference r =>
    simp only [bind_assoc, pure_bind]
    rfl

/-- A native function is asked with a record of the call. -/
theorem answer_native {id : Nat} {native : Native} (found : m.natives[id]? = some native)
    (values : List Value)
    (stack : List Slot) (o : Nat) :
    answer (values, .native id) ⟨m, stack, o⟩ =
      .ok () ⟨{ m with calls := m.calls.push ⟨id, native.name, values⟩ },
        .value (native.apply m.calls values) :: stack, o⟩ := by
  have called : m.call (.native id) values =
      .ok (native.apply m.calls values,
        { m with calls := m.calls.push ⟨id, native.name, values⟩ }) := by
    rw [Machine.call, found]
  have opened : answer (values, .native id) ⟨m, stack, o⟩ =
      (do
        let (result, m) ← lift (m.call (.native id) values)
        setMachine m
        push result : Step Unit) ⟨m, stack, o⟩ := rfl
  rw [opened, called]
  rfl

/-- The arguments and the function of a call are in range. -/
theorem gives_calledWith (i : Instruction) :
    Gives m (calledWith i) fun called => (∀ v ∈ called.1, v.Within m) ∧ called.2.Within m := by
  refine (gives_countOperand i).bind fun n _ => (gives_popValues n).bind fun arguments fit => ?_
  refine gives_pop.bind fun slot within => ?_
  cases slot with
  | value v => exact gives_pure ⟨fit, within⟩
  | reference r => exact (gives_read within).bind fun v there => gives_pure ⟨fit, there⟩

/-- If the step calls a native function, with arguments in range, then the answer is in range. -/
def Answered (step : Step Unit) (r : Running) : Prop :=
  ∀ r' c native, step r = .ok () r' → r'.machine.calls = r.machine.calls.push c →
    r.machine.natives[c.native]? = some native → (∀ v ∈ c.arguments, v.Within r.machine) →
      (native.apply r.machine.calls c.arguments).Within r.machine

/-- A call keeps everything in range if the answer of the native function is. -/
theorem leaves_call {i : Instruction} {r : Running} (closed : r.Closed)
    (answered : Answered (call i) r) :
    Leaves r.machine (fun _ _ => True) (call i r) := by
  have prepared := gives_calledWith i r rfl closed
  rw [call_eq] at answered ⊢
  cases h : calledWith i r with
  | error stop r' =>
    have joined : (calledWith i >>= answer) r = .error stop r' := by
      simp only [Bind.bind, EStateM.bind, h]
    rw [joined]
    rw [h] at prepared
    exact prepared
  | ok called r' =>
    have joined : (calledWith i >>= answer) r = answer called r' := by
      simp only [Bind.bind, EStateM.bind, h]
    rw [Answered, joined] at answered
    rw [joined]
    rw [h] at prepared
    obtain ⟨closed', -, same, arguments, callee⟩ := prepared
    obtain ⟨values, v⟩ := called
    cases v with
    | native id =>
      obtain ⟨_, stack, o⟩ := r'
      obtain rfl := same
      obtain ⟨native, found⟩ : ∃ native, r.machine.natives[id]? = some native :=
        ⟨_, Array.getElem?_eq_getElem callee⟩
      have executed := answer_native found values stack o
      have grows : r.machine.Grows
          { r.machine with calls := r.machine.calls.push ⟨id, native.name, values⟩ } :=
        ⟨Nat.le_refl _, rfl⟩
      have fits := answered _ ⟨id, native.name, values⟩ native executed rfl found arguments
      rw [executed]
      refine ⟨⟨.of_written grows closed.machine.globals closed.machine.properties, ?_⟩,
        grows, trivial⟩
      rintro slot (_ | ⟨_, mem⟩)
      · exact grows.value fits
      · exact grows.slot (closed'.stack slot mem)
    | _ => exact ⟨closed'.machine, trivial⟩

/-- The same of every instruction. -/
theorem leaves_execute {code : Runnable} {i : Instruction} {r : Running} (closed : r.Closed)
    (answered : Answered (execute code i) r) :
    Leaves r.machine (fun _ _ => True) (execute code i r) := by
  by_cases calls : i.op = .call ∨ i.op = .callRef
  · have executed : execute code i = call i := by
      rcases calls with hop | hop
      · rw [execute, hop]
      · rw [execute, hop]
    rw [executed] at answered ⊢
    exact leaves_call closed answered
  · exact keeps_execute code (not_or.mp calls) r rfl closed

/-- The same of every step. -/
theorem leaves_next {code : Runnable} {r : Running} (closed : r.Closed)
    (answered : Answered (next code) r) :
    Leaves r.machine (fun _ _ => True) (next code r) := by
  obtain ⟨m, stack, o⟩ := r
  cases found : code.instructions[o]? with
  | none =>
    rw [next_outside found]
    exact ⟨closed.machine, trivial⟩
  | some i =>
    have answered' : Answered (execute code i) ⟨m, stack, o + 1⟩ := by
      intro r' c native done
      exact answered r' c native ((next_eq found).trans done)
    rw [next_eq found]
    exact leaves_execute ⟨closed.machine, closed.stack⟩ answered'

end Step

/-! ## Runs -/

namespace Running

variable {code : Runnable} {start : Running}

/-- All along the run, calls of native functions with arguments in range are answered by what is in
    range. -/
def AnswersWithin (code : Runnable) (start : Running) : Prop :=
  ∀ k r, Steps code k start r → r.Closed → Step.Answered (Step.next code) r

/-- A run whose answers are in range goes on as one. -/
theorem AnswersWithin.next {mid : Running} (answers : AnswersWithin code start)
    (step : Step.next code start = .ok () mid) : AnswersWithin code mid :=
  fun k r steps => answers (k + 1) r ⟨mid, step, steps⟩

/-- A run keeps all in range up to its last step, and that step leaves all in range. -/
theorem closed_of_steps (closed : start.Closed) (answers : AnswersWithin code start) {k : Nat}
    {r : Running}
    (steps : Steps code k start r) :
    r.Closed ∧ start.machine.Grows r.machine ∧
      Step.Leaves r.machine (fun _ _ => True) (Step.next code r) := by
  induction k generalizing start with
  | zero =>
    obtain rfl : r = start := steps
    exact ⟨closed, .refl _, Step.leaves_next closed (answers 0 r rfl closed)⟩
  | succ k ih =>
    obtain ⟨mid, step, rest⟩ := steps
    have left := Step.leaves_next closed (answers 0 start rfl closed)
    rw [step] at left
    obtain ⟨closed', grows, fits⟩ := ih left.1 (answers.next step) rest
    exact ⟨closed', left.2.1.trans grows, fits⟩

/-- All is in range when a run has ended, and what it has ended with is in range as well. -/
theorem closed_of_run (closed : start.Closed) (answers : AnswersWithin code start) (budget : Nat) :
    (start.run code budget).machine.Closed ∧
      (start.run code budget).stop.Within (start.run code budget).machine := by
  induction budget generalizing start with
  | zero => exact ⟨closed.machine, trivial⟩
  | succ budget ih =>
    have left := Step.leaves_next closed (answers 0 start rfl closed)
    rw [run]
    cases step : Step.next code start with
    | ok _ mid =>
      rw [step] at left
      exact ih left.1 (answers.next step)
    | error stop r =>
      rw [step] at left
      exact left

/-- Native functions that answer with one of their arguments, or with what was in range before, as
    all is that has no number, answer within range all along a run. -/
theorem answersWithin_of_natives {m : Machine}
    (natives : ∀ native ∈ m.natives, ∀ calls arguments,
      native.apply calls arguments ∈ arguments ∨ (native.apply calls arguments).Within m)
    (grows : m.Grows start.machine) (closed : start.Closed) : AnswersWithin code start := by
  have answered (r : Running) (grows : m.Grows r.machine) : Step.Answered (Step.next code) r := by
    intro r' c native _ _ found arguments
    have mem : native ∈ m.natives := grows.natives ▸ Array.mem_of_getElem? found
    rcases natives native mem r.machine.calls c.arguments with given | known
    · exact arguments _ given
    · exact grows.value known
  intro k
  induction k generalizing start with
  | zero =>
    rintro r rfl -
    exact answered r grows
  | succ k ih =>
    rintro r ⟨mid, step, rest⟩
    have left := Step.leaves_next closed (answered start grows)
    rw [step] at left
    exact ih (grows.trans left.2.1) left.1 r rest

end Running

/-- From a closed machine every step keeps the machine closed and all slots in range, as long as
    native functions answer with what is in range. So no step looks for an object or a native
    function that is not there, and the machine is closed when the run has ended. -/
theorem Machine.run_closed (m : Machine) (code : Runnable) (offset : Nat) (closed : m.Closed)
    (answers : Running.AnswersWithin code ⟨m, [], offset⟩) :
    (∀ k r, Running.Steps code k ⟨m, [], offset⟩ r →
      r.machine.Closed ∧ (∀ slot ∈ r.stack, slot.Within r.machine) ∧
        ∀ stop r', Step.next code r = .error stop r' →
          ∀ id, stop ≠ .fault (.danglingObject id) ∧ stop ≠ .fault (.danglingNative id)) ∧
      (m.run code offset).machine.Closed ∧
      (∀ id, (m.run code offset).stop ≠ .fault (.danglingObject id) ∧
        (m.run code offset).stop ≠ .fault (.danglingNative id)) ∧
      ∀ v, (m.run code offset).stop = .outcome (.returned v) →
        v.Within (m.run code offset).machine := by
  have there {m : Machine} {stop : Stop} (within : stop.Within m) (id : Nat) :
      stop ≠ .fault (.danglingObject id) ∧ stop ≠ .fault (.danglingNative id) := by
    constructor
    · rintro rfl
      exact within
    · rintro rfl
      exact within
  have start : Running.Closed ⟨m, [], offset⟩ := ⟨closed, by simp⟩
  refine ⟨fun k r steps => ?_, ?_⟩
  · obtain ⟨closed', -, left⟩ := Running.closed_of_steps start answers steps
    refine ⟨closed'.machine, closed'.stack, fun stop r' stops => ?_⟩
    rw [stops] at left
    exact there left.2
  · obtain ⟨closed', within⟩ := Running.closed_of_run start answers Machine.stepLimit
    refine ⟨closed', there within, fun v returned => ?_⟩
    rw [Machine.run] at returned ⊢
    rw [returned] at within
    exact within

/-- A machine with a function that gives back what it is given. -/
def echoing : Machine :=
  { globals := [("echo", .native 0)],
    natives := #[⟨"echo", fun _ arguments => arguments.headD .undefined⟩] }

/-- Calls the function with an object that holds another object and the function itself. -/
def echoCall : Runnable :=
  ⟨#[⟨.resolveName, some (.name 0), none⟩, ⟨.newObject, none, none⟩, ⟨.newObject, none, none⟩,
    ⟨.setProperty, some (.name 1), none⟩, ⟨.loadName, some (.name 0), none⟩,
    ⟨.setProperty, some (.name 0), none⟩, ⟨.callRef, some (.count 1), none⟩, ⟨.ret, none, none⟩],
    some ⟨#["echo", "inner"], 2⟩⟩

/-- A function that gives back its argument is called with an object, and the object is returned. -/
theorem Machine.run_closed_echoCall :
    echoing.Closed ∧ (echoing.run echoCall 0).machine.Closed ∧
      (echoing.run echoCall 0).stop = .outcome (.returned (.object 0)) ∧
      (echoing.run echoCall 0).machine.objects =
        #[[("inner", .object 1), ("echo", .native 0)], []] := by
  have closed : echoing.Closed :=
    ⟨by simp [echoing, Bindings.Within, Value.Within], by simp [echoing]⟩
  have start : Running.Closed ⟨echoing, [], 0⟩ := ⟨closed, by simp⟩
  have natives : ∀ native ∈ echoing.natives, ∀ calls arguments,
      native.apply calls arguments ∈ arguments ∨ (native.apply calls arguments).Within echoing := by
    simp only [echoing, List.mem_toArray, List.mem_singleton, forall_eq]
    intro calls arguments
    cases arguments with
    | nil => exact .inr trivial
    | cons v rest => exact .inl List.mem_cons_self
  have ended := Machine.run_closed echoing echoCall 0 closed
    (Running.answersWithin_of_natives natives (.refl _) start)
  exact ⟨closed, ended.2.1, rfl, rfl⟩

end StackScript
