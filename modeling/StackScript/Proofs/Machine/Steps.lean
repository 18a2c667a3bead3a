import StackScript.Proofs.Machine.Acts

/-!
# Runs in steps

A run as a number of steps that do not stop, and one that does. What a single instruction does is
told without its place: it acts on the stack and the state of the machine, and control goes on with
the next one.
-/

namespace StackScript

namespace Running

/-- The code takes a number of steps without stopping. -/
def Steps (code : Runnable) : (k : Nat) → Running → Running → Prop
  | 0, r, r' => r' = r
  | k + 1, r, r' => ∃ mid, Step.next code r = .ok () mid ∧ Steps code k mid r'

/-- The code takes a number of steps, and stops in the one after them. -/
def Halts (code : Runnable) (k : Nat) (r : Running) (e : Ended) : Prop :=
  ∃ r' r'', Steps code k r r' ∧ Step.next code r' = .error e.stop r'' ∧ r''.machine = e.machine

variable {code : Runnable} {j k budget : Nat} {r r' r'' : Running} {e : Ended}

theorem steps_one (h : Step.next code r = .ok () r') : Steps code 1 r r' :=
  ⟨r', h, rfl⟩

theorem Steps.trans (first : Steps code j r r') (second : Steps code k r' r'') :
    Steps code (j + k) r r'' := by
  induction j generalizing r with
  | zero =>
    obtain rfl : r' = r := first
    rwa [Nat.zero_add]
  | succ j ih =>
    obtain ⟨mid, next, rest⟩ := first
    rw [Nat.add_right_comm]
    exact ⟨mid, next, ih rest⟩

theorem Steps.halts (first : Steps code j r r') (second : Halts code k r' e) :
    Halts code (j + k) r e := by
  obtain ⟨a, b, steps, stops, same⟩ := second
  exact ⟨a, b, first.trans steps, stops, same⟩

theorem run_of_steps (h : Steps code k r r') (budget : Nat) :
    r.run code (k + budget) = r'.run code budget := by
  induction k generalizing r with
  | zero =>
    obtain rfl : r' = r := h
    rw [Nat.zero_add]
  | succ k ih =>
    obtain ⟨mid, next, rest⟩ := h
    rw [Nat.add_right_comm, run, next]
    exact ih rest

theorem run_of_halts (h : Halts code k r e) (lt : k < budget) : r.run code budget = e := by
  obtain ⟨stop, m⟩ := e
  obtain ⟨r', r'', steps, stops, rfl⟩ := h
  obtain ⟨rest, rfl⟩ := Nat.exists_eq_add_of_lt lt
  rw [Nat.add_assoc, run_of_steps steps, run, stops]

theorem Halts.next_ne_ok (h : Halts code 0 r e) : Step.next code r ≠ .ok () r' := by
  obtain ⟨_, _, rfl, stops, -⟩ := h
  rw [stops]
  nofun

/-- A run that goes on for longer than its budget does not end. -/
theorem run_of_steps_of_le (h : Steps code k r r') (le : budget ≤ k) :
    (r.run code budget).stop = .fault .outOfSteps := by
  induction budget generalizing k r with
  | zero => rfl
  | succ budget ih =>
    obtain ⟨k, rfl⟩ := Nat.exists_eq_add_of_le' (Nat.le_of_add_left_le le)
    obtain ⟨mid, next, rest⟩ := h
    rw [run, next]
    exact ih rest (by omega)

/-- Two codes run alike if they take the same steps as long as a property holds that every step
    keeps. -/
theorem run_congr {code' : Runnable} {P : Running → Prop}
    (same : ∀ r, P r → Step.next code' r = Step.next code r)
    (keeps : ∀ r r', P r → Step.next code r = .ok () r' → P r') (h : P r) (budget : Nat) :
    r.run code' budget = r.run code budget := by
  induction budget generalizing r with
  | zero => rfl
  | succ budget ih =>
    rw [run, run, same r h]
    cases next : Step.next code r with
    | ok _ r' => exact ih (keeps r r' h next)
    | error stop r' => rfl

end Running

/-- The names of the code, of which there need not be any. -/
def Runnable.texts (code : Runnable) : Array String :=
  match code.names with
  | some names => names.entries
  | none => #[]

theorem Runnable.getElem?_texts (code : Runnable) (n : Nat) :
    code.names.bind (·.get? n) = code.texts[n]? := by
  unfold texts
  cases code.names with
  | some names => rfl
  | none => simp

/-- Code with a single name, for an instruction on its own. -/
def Runnable.ofName (text : String) : Runnable :=
  ⟨#[], some ⟨#[text], 1⟩⟩

namespace Step

@[simp] theorem nameOperand_ofName (op : Op) (text : String) (extra : Option Operand) :
    nameOperand (.ofName text) { op := op, operand := some (.name 0), extra := extra } =
      pure text := rfl

variable {code : Runnable} {i : Instruction} {m : Machine} {stack : List Slot} {o : Nat}

theorem next_eq (found : code.instructions[o]? = some i) :
    next code ⟨m, stack, o⟩ = execute code i ⟨m, stack, o + 1⟩ := by
  have here : (get : Step Running) ⟨m, stack, o⟩ = .ok ⟨m, stack, o⟩ ⟨m, stack, o⟩ := rfl
  simp only [next, Bind.bind, EStateM.bind, here, found]
  rfl

theorem next_outside (missing : code.instructions[o]? = none) :
    next code ⟨m, stack, o⟩ = .error (.fault (.outsideCode o)) ⟨m, stack, o⟩ := by
  have here : (get : Step Running) ⟨m, stack, o⟩ = .ok ⟨m, stack, o⟩ ⟨m, stack, o⟩ := rfl
  simp only [next, Bind.bind, EStateM.bind, here, missing]
  rfl

/-- Control goes on behind an instruction that does not jump. -/
theorem next_of_acts_eq_ok {stack' : List Slot} {m' : Machine}
    (found : code.instructions[o]? = some i) (goesOn : i.op.goesOn = true)
    (h : (execute code i).acts stack m = .ok stack' m') :
    next code ⟨m, stack, o⟩ = .ok () ⟨m', stack', o + 1⟩ := by
  rw [next_eq found]
  have moved := (steady_execute code goesOn).moves ⟨m, stack, 0⟩ (o + 1)
  simp only [acts] at h
  split at h
  · rename_i r executed
    cases h
    rw [executed] at moved
    exact moved
  · cases h

theorem halts_of_acts_eq_error {stop : Stop} {m' : Machine}
    (found : code.instructions[o]? = some i) (goesOn : i.op.goesOn = true)
    (h : (execute code i).acts stack m = .error stop m') :
    stop ≠ .fault .outOfSteps ∧ Running.Halts code 0 ⟨m, stack, o⟩ ⟨stop, m'⟩ := by
  have steady := steady_execute code goesOn
  have moved := steady.moves ⟨m, stack, 0⟩ (o + 1)
  simp only [acts] at h
  split at h
  · cases h
  · rename_i stop r executed
    cases h
    rw [executed] at moved
    constructor
    · rintro rfl
      exact steady.stops _ r executed
    · exact ⟨_, r.at (o + 1), rfl, (next_eq found).trans moved, rfl⟩

/-! ## Jumps -/

variable {t : Nat} {v : Value}

theorem next_jump (found : code.instructions[o]? = some (.jumpTo .jump t)) :
    next code ⟨m, stack, o⟩ = .ok () ⟨m, stack, t⟩ :=
  next_eq found

/-- The jump that leaves out the right side keeps the value of the left side. -/
theorem next_skip (operator : LogicalOperator)
    (found : code.instructions[o]? = some (.jumpTo operator.op t)) (rest : List Slot) :
    next code ⟨m, .value v :: rest, o⟩ =
      .ok () (if operator.decides v then ⟨m, .value v :: rest, t⟩ else ⟨m, rest, o + 1⟩) := by
  rw [next_eq found]
  cases operator with
  | and =>
    have executed : execute code (.jumpTo LogicalOperator.and.op t) ⟨m, .value v :: rest, o + 1⟩ =
        (if v.truthy = false then jump (.jumpTo .jumpIfFalseOrPop t) else do let _ ← pop)
          ⟨m, .value v :: rest, o + 1⟩ := rfl
    rw [executed, LogicalOperator.decides]
    cases v.truthy <;> rfl
  | or =>
    have executed : execute code (.jumpTo LogicalOperator.or.op t) ⟨m, .value v :: rest, o + 1⟩ =
        (if v.truthy = true then jump (.jumpTo .jumpIfTrueOrPop t) else do let _ ← pop)
          ⟨m, .value v :: rest, o + 1⟩ := rfl
    rw [executed, LogicalOperator.decides]
    cases v.truthy <;> rfl

/-- The jump to the alternate of a choice. -/
theorem next_branch (keeps : Bool)
    (found : code.instructions[o]? = some (.jumpTo (Segment.branchOp keeps) t))
    (rest : List Slot) :
    next code ⟨m, .value v :: rest, o⟩ =
      .ok () (if v.truthy then ⟨m, rest, o + 1⟩
        else ⟨m, if keeps then .value v :: rest else rest, t⟩) := by
  cases keeps with
  | true =>
    rw [next_skip .and found rest, LogicalOperator.decides]
    cases v.truthy <;> rfl
  | false =>
    have executed : execute code (.jumpTo .jumpIfFalse t) ⟨m, .value v :: rest, o + 1⟩ =
        (if !v.truthy then jump (.jumpTo .jumpIfFalse t) else pure ()) ⟨m, rest, o + 1⟩ := rfl
    rw [next_eq found, Segment.branchOp, if_neg Bool.false_ne_true, executed]
    cases v.truthy <;> rfl

/-- A conditional jump needs a value to test. -/
theorem halts_of_no_value {op : Op}
    (hop : op = .jumpIfFalse ∨ op = .jumpIfFalseOrPop ∨ op = .jumpIfTrueOrPop)
    (found : code.instructions[o]? = some (.jumpTo op t)) :
    Running.Halts code 0 ⟨m, [], o⟩ ⟨.fault .emptyStack, m⟩ ∧
      ∀ (r : Reference) (rest : List Slot),
        Running.Halts code 0 ⟨m, .reference r :: rest, o⟩ ⟨.fault .expectedValue, m⟩ := by
  rcases hop with rfl | rfl | rfl
  all_goals exact ⟨⟨_, _, rfl, next_eq found, rfl⟩, fun r rest => ⟨_, _, rfl, next_eq found, rfl⟩⟩

/-- A conditional jump that goes on has found a value. -/
theorem exists_value_of_next {op : Op} {r : Running}
    (hop : op = .jumpIfFalse ∨ op = .jumpIfFalseOrPop ∨ op = .jumpIfTrueOrPop)
    (found : code.instructions[o]? = some (.jumpTo op t))
    (goes : next code ⟨m, stack, o⟩ = .ok () r) :
    ∃ v below, stack = .value v :: below := by
  obtain ⟨empty, unfit⟩ := halts_of_no_value (m := m) hop found
  match stack with
  | [] => exact absurd goes empty.next_ne_ok
  | .reference place :: below => exact absurd goes (unfit place below).next_ne_ok
  | .value v :: below => exact ⟨v, below, rfl⟩

end Step

end StackScript
