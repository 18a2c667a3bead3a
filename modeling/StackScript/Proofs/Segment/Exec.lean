import StackScript.Proofs.Machine.Steps

/-!
# What segments do

A segment read as a program of its own: it acts on a stack, and its control structures are followed
without offsets. Loops are given a number of rounds. Code in which a segment stands does what the
segment does, step by step.
-/

namespace StackScript

/-- Takes the value that a conditional jump tests. -/
def Evaluate.tested : List Slot → Evaluate (Value × List Slot)
  | .value v :: rest => return (v, rest)
  | .reference _ :: _ => fault .expectedValue
  | [] => fault .emptyStack

namespace Segment

open Evaluate

/-- The rounds of a loop with a test. -/
def cycled (test body : List Slot → Evaluate (List Slot)) :
    (fuel : Nat) → List Slot → Evaluate (List Slot)
  | 0, _ => fault .outOfSteps
  | fuel + 1, stack => do
    let (value, rest) ← tested (← test stack)
    if value.truthy then cycled test body fuel (← body rest) else return rest

/-- The rounds of a loop without a test. -/
def repeated (body : List Slot → Evaluate (List Slot)) :
    (fuel : Nat) → List Slot → Evaluate (List Slot)
  | 0, _ => fault .outOfSteps
  | fuel + 1, stack => do repeated body fuel (← body stack)

/-- What the segment does to a stack. -/
def exec (fuel : Nat) : Segment → List Slot → Evaluate (List Slot)
  | .plain i _, stack => (Step.execute ⟨#[], none⟩ i).acts stack
  | .named op text extra _, stack =>
    (Step.execute (.ofName text)
      { op := op, operand := some (.name 0), extra := extra }).acts stack
  | .unused _, stack => return stack
  | .seq first second, stack => first.exec fuel stack >>= second.exec fuel
  | .skip operator body, stack => do
    let (value, rest) ← tested stack
    if operator.decides value then return stack else body.exec fuel rest
  | .branch keeps consequent alternate, stack => do
    let (value, rest) ← tested stack
    if value.truthy then consequent.exec fuel rest
    else alternate.exec fuel (if keeps then stack else rest)
  | .cycle test body, stack => cycled (test.exec fuel) (body.exec fuel) fuel stack
  | .forever body, stack => repeated (body.exec fuel) fuel stack

end Segment

open Running

/-- The code follows a result from a state on: it gets to an offset with the stack and the machine
    of the result, or stops as the result says. Where the result ran out of rounds, the code takes
    at least as many steps as there were rounds. Code without loops takes no more steps than it has
    instructions. -/
inductive Follows (code : Runnable) (fuel : Nat) (straight : Bool) (size : Nat) (r : Running)
    (dest : Nat) : EStateM.Result Stop Machine (List Slot) → Prop
  | goes {k : Nat} {stack : List Slot} {m : Machine} (bound : straight = true → k ≤ size)
      (steps : Steps code k r ⟨m, stack, dest⟩) :
        Follows code fuel straight size r dest (.ok stack m)
  | halts {k : Nat} {stop : Stop} {m : Machine} (bound : straight = true → k < size)
      (real : stop ≠ .fault .outOfSteps) (halts : Halts code k r ⟨stop, m⟩) :
      Follows code fuel straight size r dest (.error stop m)
  | exhausts {k : Nat} {r' : Running} {m : Machine} (loops : straight = false) (enough : fuel ≤ k)
      (steps : Steps code k r r') :
      Follows code fuel straight size r dest (.error (.fault .outOfSteps) m)

section Follows

variable {code : Runnable} {fuel k size size' dest mid : Nat} {straight straight' : Bool}
  {r r' : Running} {result : EStateM.Result Stop Machine (List Slot)}

/-- Steps that come before. -/
theorem Follows.prepend (steps : Steps code k r r') (bound : straight = true → k ≤ size)
    (h : Follows code fuel straight' size' r' dest result) :
    Follows code fuel (straight && straight') (size + size') r dest result := by
  cases h with
  | goes bound' steps' =>
    refine .goes ?_ (steps.trans steps')
    rw [Bool.and_eq_true]
    rintro ⟨h, h'⟩
    have := bound h
    have := bound' h'
    omega
  | halts bound' real halts =>
    refine .halts ?_ real (steps.halts halts)
    rw [Bool.and_eq_true]
    rintro ⟨h, h'⟩
    have := bound h
    have := bound' h'
    omega
  | exhausts loops enough steps' =>
    exact .exhausts (by simp [loops]) (by omega) (steps.trans steps')

theorem Follows.step (next : Step.next code r = .ok () r')
    (h : Follows code fuel straight size r' dest result) :
    Follows code fuel straight (size + 1) r dest result := by
  have single : true = true → 1 ≤ 1 := fun _ => Nat.le_refl 1
  have := h.prepend (steps_one next) single
  rwa [Bool.true_and, Nat.add_comm] at this

/-- A step that counts as a round. -/
theorem Follows.round (next : Step.next code r = .ok () r')
    (h : Follows code fuel straight size r' dest result) :
    Follows code (fuel + 1) false 0 r dest result := by
  cases h with
  | goes bound steps => exact .goes (fun h => by cases h) ((steps_one next).trans steps)
  | halts bound real halts =>
    exact .halts (fun h => by cases h) real ((steps_one next).halts halts)
  | exhausts loops enough steps => exact .exhausts rfl (by omega) ((steps_one next).trans steps)

theorem Follows.bind {action : Evaluate (List Slot)} {rest : List Slot → Evaluate (List Slot)}
    {m : Machine} (first : Follows code fuel straight size r mid (action m))
    (second : ∀ stack m', action m = .ok stack m' →
      Follows code fuel straight' size' ⟨m', stack, mid⟩ dest (rest stack m')) :
    Follows code fuel (straight && straight') (size + size') r dest ((action >>= rest) m) := by
  simp only [Bind.bind, EStateM.bind]
  generalize action m = result at first second
  cases first with
  | goes bound steps => exact (second _ _ rfl).prepend steps bound
  | halts bound real halts =>
    refine .halts ?_ real halts
    rw [Bool.and_eq_true]
    rintro ⟨h, -⟩
    have := bound h
    omega
  | exhausts loops enough steps => exact .exhausts (by simp [loops]) enough steps

/-- A bound may be widened. -/
theorem Follows.widen (h : Follows code fuel straight size r dest result)
    (hs : straight' = true → straight = true ∧ size ≤ size') :
    Follows code fuel straight' size' r dest result := by
  cases h with
  | goes bound steps =>
    refine .goes (fun h => ?_) steps
    have := bound (hs h).1
    have := (hs h).2
    omega
  | halts bound real halts =>
    refine .halts (fun h => ?_) real halts
    have := bound (hs h).1
    have := (hs h).2
    omega
  | exhausts loops enough steps =>
    refine .exhausts ?_ enough steps
    rw [← Bool.not_eq_true]
    intro h
    rw [(hs h).1] at loops
    cases loops

/-- Fewer rounds. -/
theorem Follows.mono {fuel' : Nat} (h : Follows code fuel straight size r dest result)
    (le : fuel' ≤ fuel) : Follows code fuel' straight size r dest result := by
  cases h with
  | goes bound steps => exact .goes bound steps
  | halts bound real halts => exact .halts bound real halts
  | exhausts loops enough steps => exact .exhausts loops (by omega) steps

/-- A jump to another place behind. -/
theorem Follows.jump {t : Nat} (h : Follows code fuel straight size r mid result)
    (found : code.instructions[mid]? = some (.jumpTo .jump t)) :
    Follows code fuel straight (size + 1) r t result := by
  cases h with
  | goes bound steps =>
    refine .goes (fun h => ?_) (steps.trans (steps_one (Step.next_jump found)))
    have := bound h
    omega
  | halts bound real halts => exact .halts (fun h => Nat.lt_succ_of_lt (bound h)) real halts
  | exhausts loops enough steps => exact .exhausts loops enough steps

variable {m : Machine} {stack : List Slot} {o t : Nat}

/-- An instruction that does not jump. -/
theorem follows_acts {i : Instruction} (found : code.instructions[o]? = some i)
    (goesOn : i.op.goesOn = true) :
    Follows code fuel true 1 ⟨m, stack, o⟩ (o + 1) 
      ((Step.execute code i).acts stack m) := by
  cases h : (Step.execute code i).acts stack m with
  | ok stack' m' =>
    exact .goes (fun _ => Nat.le_refl 1) (steps_one (Step.next_of_acts_eq_ok found goesOn h))
  | error stop m' =>
    obtain ⟨real, halts⟩ := Step.halts_of_acts_eq_error found goesOn h
    exact .halts (fun _ => Nat.one_pos) real halts

/-- A conditional jump stops if there is no value on the stack. -/
theorem follows_tested {op : Op}
    (hop : op = .jumpIfFalse ∨ op = .jumpIfFalseOrPop ∨ op = .jumpIfTrueOrPop)
    (found : code.instructions[o]? = some (.jumpTo op t)) (pos : 0 < size)
    {rest : Value × List Slot → Evaluate (List Slot)}
    (h : ∀ v below, stack = .value v :: below →
      Follows code fuel straight size ⟨m, stack, o⟩ dest (rest (v, below) m)) :
    Follows code fuel straight size ⟨m, stack, o⟩ dest
      ((Evaluate.tested stack >>= rest) m) := by
  obtain ⟨empty, unfit⟩ := Step.halts_of_no_value (m := m) hop found
  match stack with
  | [] => exact .halts (fun _ => pos) (by simp) empty
  | .reference r :: below => exact .halts (fun _ => pos) (by simp) (unfit r below)
  | .value v :: below => exact h v below rfl

end Follows

namespace Segment

open Evaluate

variable {code : Runnable} {o n : Nat}

theorem follows_skip {fuel size : Nat} {straight : Bool} {operator : LogicalOperator}
    {body : List Slot → Evaluate (List Slot)}
    (found : code.instructions[o]? = some (.jumpTo operator.op (o + 1 + size)))
    (h : ∀ m stack, Follows code fuel straight size ⟨m, stack, o + 1⟩ (o + 1 + size)
      (body stack m)) (m : Machine) (stack : List Slot) :
    Follows code fuel straight (size + 1) ⟨m, stack, o⟩ (o + 1 + size)
      ((do
        let (value, rest) ← tested stack
        if operator.decides value then return stack else body rest : Evaluate (List Slot)) m) := by
  refine follows_tested (by cases operator <;> simp [LogicalOperator.op]) found (by omega) ?_
  rintro v below rfl
  have next := Step.next_skip operator (m := m) (v := v) found below
  by_cases decides : operator.decides v = true
  · rw [if_pos decides] at next
    simp only [decides, if_true]
    exact .goes (fun _ => by omega) (steps_one next)
  · rw [if_neg decides] at next
    simp only [decides]
    exact (h m below).step next

theorem follows_branch {fuel size size' : Nat} {straight straight' keeps : Bool}
    {consequent alternate : List Slot → Evaluate (List Slot)}
    (found : code.instructions[o]? = some (.jumpTo (branchOp keeps) (o + 1 + size + 1)))
    (found' : code.instructions[o + 1 + size]? = some (.jumpTo .jump (o + 1 + size + 1 + size')))
    (h : ∀ m stack, Follows code fuel straight size ⟨m, stack, o + 1⟩ (o + 1 + size)
      (consequent stack m))
    (h' : ∀ m stack, Follows code fuel straight' size' ⟨m, stack, o + 1 + size + 1⟩
      (o + 1 + size + 1 + size') (alternate stack m)) (m : Machine) (stack : List Slot) :
    Follows code fuel (straight && straight') (size + size' + 2) ⟨m, stack, o⟩
      (o + 1 + size + 1 + size')
      ((do
        let (value, rest) ← tested stack
        if value.truthy then consequent rest
        else alternate (if keeps then stack else rest) : Evaluate (List Slot)) m) := by
  refine follows_tested (by cases keeps <;> simp [branchOp]) found (by omega) ?_
  rintro v below rfl
  have next := Step.next_branch keeps (m := m) (v := v) found below
  cases truthy : v.truthy with
  | true =>
    rw [truthy, if_pos rfl] at next
    simp only [truthy, if_true]
    apply (((h m below).jump found').step next).widen
    rw [Bool.and_eq_true]
    rintro ⟨hs, -⟩
    exact ⟨hs, by omega⟩
  | false =>
    rw [truthy, if_neg Bool.false_ne_true] at next
    simp only [truthy, Bool.false_eq_true, if_false]
    apply ((h' m _).step next).widen
    rw [Bool.and_eq_true]
    rintro ⟨-, hs⟩
    exact ⟨hs, by omega⟩

/-- The rounds of a loop. Each of them takes a step at least, so that running out of rounds is
    running for as many steps. -/
theorem follows_cycled {fuel size size' : Nat} {straight straight' : Bool}
    {test body : List Slot → Evaluate (List Slot)}
    (found : code.instructions[o + size]? =
      some (.jumpTo .jumpIfFalse (o + size + 1 + size' + 1)))
    (found' : code.instructions[o + size + 1 + size']? = some (.jumpTo .jump o))
    (h : ∀ m stack, Follows code fuel straight size ⟨m, stack, o⟩ (o + size) (test stack m))
    (h' : ∀ m stack, Follows code fuel straight' size' ⟨m, stack, o + size + 1⟩
      (o + size + 1 + size') (body stack m))
    (left : Nat) (le : left ≤ fuel) (m : Machine) (stack : List Slot) :
    Follows code left false 0 ⟨m, stack, o⟩ (o + size + 1 + size' + 1)
      (cycled test body left stack m) := by
  induction left generalizing m stack with
  | zero => exact .exhausts rfl (Nat.le_refl 0) rfl
  | succ left ih =>
    have le' : left ≤ fuel := Nat.le_of_succ_le le
    -- What follows the test: the jump out of the loop, or the body and the other rounds.
    have choice (m : Machine) (stack : List Slot) :
        Follows code (left + 1) false 1 ⟨m, stack, o + size⟩ (o + size + 1 + size' + 1)
          ((do
            let (value, rest) ← tested stack
            if value.truthy then cycled test body left (← body rest)
            else return rest : Evaluate (List Slot)) m) := by
      refine follows_tested (.inl rfl) found (by omega) ?_
      rintro v below rfl
      have next := Step.next_branch false (m := m) (v := v) found below
      cases truthy : v.truthy with
      | true =>
        rw [truthy, if_pos rfl] at next
        simp only [truthy, if_true]
        have body := ((h' m below).mono le').jump found'
        have rounds := body.bind fun stack m _ => ih le' m stack
        exact (rounds.round next).widen (by simp)
      | false =>
        rw [truthy, if_neg Bool.false_ne_true] at next
        simp only [truthy, Bool.false_eq_true, if_false]
        exact .goes (fun h => by cases h) (steps_one next)
    exact (((h m stack).mono le).bind fun stack m _ => choice m stack).widen (by simp)

/-- A loop without a test is never left. -/
theorem follows_repeated {fuel size : Nat} {straight : Bool}
    {body : List Slot → Evaluate (List Slot)} (dest : Nat)
    (found : code.instructions[o + size]? = some (.jumpTo .jump o))
    (h : ∀ m stack, Follows code fuel straight size ⟨m, stack, o⟩ (o + size) (body stack m))
    (left : Nat) (le : left ≤ fuel) (m : Machine) (stack : List Slot) :
    Follows code left false 0 ⟨m, stack, o⟩ dest (repeated body left stack m) := by
  induction left generalizing m stack with
  | zero => exact .exhausts rfl (Nat.le_refl 0) rfl
  | succ left ih =>
    have le' : left ≤ fuel := Nat.le_of_succ_le le
    have back (m : Machine) (stack : List Slot) :
        Follows code (left + 1) false 0 ⟨m, stack, o + size⟩ dest (repeated body left stack m) :=
      (ih le' m stack).round (Step.next_jump found)
    exact (((h m stack).mono le).bind fun stack m _ => back m stack).widen (by simp)

/-- Code in which a segment stands does what the segment does. -/
theorem follows_exec (a : Segment) (fuel : Nat) (stands : Stands code.instructions o (a.place o n))
    (named : Stands code.texts n a.names) (m : Machine) (stack : List Slot) :
    Follows code fuel a.isStraight a.size ⟨m, stack, o⟩ (o + a.size) (a.exec fuel stack m) := by
  induction a generalizing o n m stack with
  | plain i fixed =>
    obtain ⟨found, -⟩ := stands
    have goesOn : i.op.goesOn = true := (Bool.and_eq_true_iff.mp fixed).1
    rw [exec, Step.execute_of_isFixed ⟨#[], none⟩ code fixed]
    exact follows_acts found goesOn
  | named op text extra goesOn =>
    obtain ⟨found, -⟩ := stands
    obtain ⟨here, -⟩ := named
    rw [← code.getElem?_texts] at here
    have single : (Runnable.ofName text).names.bind (·.get? 0) = some text := rfl
    rw [exec, Step.execute_named op extra single here]
    exact follows_acts found goesOn
  | unused texts => exact .goes (fun _ => Nat.le_refl 0) rfl
  | seq first second ih₁ ih₂ =>
    obtain ⟨stands₁, stands₂⟩ := stands_seq.mp stands
    obtain ⟨named₁, named₂⟩ := stands_append.mp named
    have := (ih₁ stands₁ named₁ m stack).bind fun stack m _ => ih₂ stands₂ named₂ m stack
    rwa [Nat.add_assoc] at this
  | skip operator body ih =>
    obtain ⟨found, stands⟩ := stands_skip.mp stands
    have := follows_skip found (ih stands named) m stack
    rwa [Nat.add_right_comm] at this
  | branch keeps consequent alternate ih₁ ih₂ =>
    obtain ⟨found, stands₁, found', stands₂⟩ := stands_branch.mp stands
    obtain ⟨named₁, named₂⟩ := stands_append.mp named
    have := follows_branch found found' (ih₁ stands₁ named₁) (ih₂ stands₂ named₂) m stack
    have stop : o + 1 + consequent.size + 1 + alternate.size =
        o + (consequent.size + alternate.size + 2) := by omega
    rwa [stop] at this
  | cycle test body ih₁ ih₂ =>
    obtain ⟨stands₁, found, stands₂, found'⟩ := stands_cycle.mp stands
    obtain ⟨named₁, named₂⟩ := stands_append.mp named
    have := follows_cycled found found' (ih₁ stands₁ named₁) (ih₂ stands₂ named₂) fuel
      (Nat.le_refl fuel) m stack
    have stop : o + test.size + 1 + body.size + 1 = o + (test.size + body.size + 2) := by omega
    rw [stop] at this
    exact this.widen (by simp [isStraight])
  | forever body ih =>
    obtain ⟨stands, found⟩ := stands_forever.mp stands
    have := follows_repeated (o + (body.size + 1)) found (ih stands named) fuel
      (Nat.le_refl fuel) m stack
    exact this.widen (by simp [isStraight])

end Segment

end StackScript
