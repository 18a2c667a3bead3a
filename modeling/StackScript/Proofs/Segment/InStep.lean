import StackScript.Proofs.Segment.Exec

/-!
# Code in step with other code

Two runs are in step when they have done the same after any number of steps, so that they end in the
same step if they end. A segment that stands in two places, with its names in two pools, runs in
step with itself as long as what follows it does. So two codes that differ in a few instructions are
compared at these instructions only.
-/

namespace StackScript

namespace Running

variable {code code' : Runnable} {budget : Nat} {r r' s s' : Running} {e : Ended}

/-- For the given number of steps the runs do the same. -/
def InStep (code code' : Runnable) (budget : Nat) (r r' : Running) : Prop :=
  ∀ left, left ≤ budget → r'.run code' left = r.run code left

theorem InStep.mono {budget' : Nat} (h : InStep code code' budget r r') (le : budget' ≤ budget) :
    InStep code code' budget' r r' :=
  fun left le' => h left (Nat.le_trans le' le)

theorem inStep_zero (same : r'.machine = r.machine) : InStep code code' 0 r r' := by
  intro left le
  obtain rfl : left = 0 := Nat.le_zero.mp le
  rw [run, run, same]

/-- A step of both runs. -/
theorem InStep.next (h : InStep code code' budget s s') (first : Step.next code r = .ok () s)
    (first' : Step.next code' r' = .ok () s') (same : r'.machine = r.machine) :
    InStep code code' (budget + 1) r r' := by
  intro left le
  cases left with
  | zero => exact inStep_zero same 0 (Nat.le_refl 0)
  | succ left =>
    rw [run, run, first, first']
    exact h left (Nat.le_of_succ_le_succ le)

/-- Both runs stop, and in the same way. -/
theorem inStep_of_halts (halts : Halts code 0 r e) (halts' : Halts code' 0 r' e)
    (same : r'.machine = r.machine) : InStep code code' budget r r' := by
  intro left le
  cases left with
  | zero => exact inStep_zero same 0 (Nat.le_refl 0)
  | succ left =>
    rw [run_of_halts halts (Nat.succ_pos left), run_of_halts halts' (Nat.succ_pos left)]

variable {m : Machine} {stack : List Slot} {o o' t t' : Nat}

/-- Conditional jumps both stop if there is no value to test. -/
theorem inStep_tested {op op' : Op}
    (hop : op = .jumpIfFalse ∨ op = .jumpIfFalseOrPop ∨ op = .jumpIfTrueOrPop)
    (hop' : op' = .jumpIfFalse ∨ op' = .jumpIfFalseOrPop ∨ op' = .jumpIfTrueOrPop)
    (found : code.instructions[o]? = some (.jumpTo op t))
    (found' : code'.instructions[o']? = some (.jumpTo op' t'))
    (h : ∀ v below, stack = .value v :: below →
      InStep code code' budget ⟨m, stack, o⟩ ⟨m, stack, o'⟩) :
    InStep code code' budget ⟨m, stack, o⟩ ⟨m, stack, o'⟩ := by
  obtain ⟨empty, unfit⟩ := Step.halts_of_no_value (m := m) hop found
  obtain ⟨empty', unfit'⟩ := Step.halts_of_no_value (m := m) hop' found'
  match stack with
  | [] => exact inStep_of_halts empty empty' rfl
  | .reference r :: below => exact inStep_of_halts (unfit r below) (unfit' r below) rfl
  | .value v :: below => exact h v below rfl

/-- How a return ends the run. -/
def returned : List Slot → Stop
  | [.value v] => .outcome (.returned v)
  | [.reference _] => .fault .expectedValue
  | stack => .fault (.unbalancedReturn stack.length)

theorem halts_return (found : code.instructions[o]? = some { op := .ret }) :
    Halts code 0 ⟨m, stack, o⟩ ⟨returned stack, m⟩ := by
  match stack with
  | [] | [.value _] | [.reference _] | .value _ :: _ :: _ | .reference _ :: _ :: _ =>
    exact ⟨_, _, rfl, Step.next_eq found, rfl⟩

end Running

namespace Segment

open Running

variable {code code' : Runnable} {o o' n n' budget : Nat} {a b : Segment}

/-- The segment stands in code at an offset, and its names stand in the pool at an index. -/
structure HeldBy (a : Segment) (code : Runnable) (o n : Nat) : Prop where
  stands : Stands code.instructions o (a.place o n)
  named : Stands code.texts n a.names

theorem heldBy_seq : (a.seq b).HeldBy code o n ↔
    a.HeldBy code o n ∧ b.HeldBy code (o + a.size) (n + a.names.length) := by
  constructor
  · rintro ⟨stands, named⟩
    obtain ⟨stands₁, stands₂⟩ := stands_seq.mp stands
    obtain ⟨named₁, named₂⟩ := stands_append.mp named
    exact ⟨⟨stands₁, named₁⟩, stands₂, named₂⟩
  · rintro ⟨⟨stands₁, named₁⟩, stands₂, named₂⟩
    exact ⟨stands_seq.mpr ⟨stands₁, stands₂⟩, stands_append.mpr ⟨named₁, named₂⟩⟩

/-- How parts that follow each other are grouped makes no difference to code. -/
theorem heldBy_seq_assoc {c : Segment} :
    ((a.seq b).seq c).HeldBy code o n ↔ (a.seq (b.seq c)).HeldBy code o n := by
  rw [heldBy_seq, heldBy_seq, heldBy_seq, heldBy_seq, and_assoc, size, names, List.length_append,
    Nat.add_assoc, Nat.add_assoc]

/-- The segment is one instruction that does not jump. -/
def isSingle : Segment → Bool
  | .plain .. | .named .. => true
  | _ => false

/-- A single instruction does in code what its segment does. -/
theorem exists_acts (single : a.isSingle = true) (held : a.HeldBy code o n) :
    ∃ i, code.instructions[o]? = some i ∧ i.op.goesOn = true ∧
      ∀ stack, (Step.execute code i).acts stack = a.exec 0 stack := by
  cases a with
  | plain i fixed =>
    refine ⟨i, held.stands.1, (Bool.and_eq_true_iff.mp fixed).1, fun stack => ?_⟩
    rw [exec, Step.execute_of_isFixed ⟨#[], none⟩ code fixed]
  | named op text extra goesOn =>
    refine ⟨_, held.stands.1, goesOn, fun stack => ?_⟩
    have here := held.named.1
    rw [← code.getElem?_texts] at here
    have alone : (Runnable.ofName text).names.bind (·.get? 0) = some text := rfl
    rw [exec, Step.execute_named op extra alone here]
  | unused | seq | skip | branch | cycle | forever => cases single

/-- Single instructions that do the same to the stack at hand. They need not be alike. -/
theorem inStep_single (single : a.isSingle = true) (single' : b.isSingle = true)
    (held : a.HeldBy code o n) (held' : b.HeldBy code' o' n') {m : Machine} {stack : List Slot}
    (same : b.exec 0 stack m = a.exec 0 stack m)
    (after : ∀ stack' m', a.exec 0 stack m = .ok stack' m' →
      InStep code code' budget ⟨m', stack', o + 1⟩ ⟨m', stack', o' + 1⟩) :
    InStep code code' (budget + 1) ⟨m, stack, o⟩ ⟨m, stack, o'⟩ := by
  obtain ⟨i, found, goesOn, acts⟩ := exists_acts single held
  obtain ⟨i', found', goesOn', acts'⟩ := exists_acts single' held'
  have alike : (Step.execute code' i').acts stack m = (Step.execute code i).acts stack m := by
    rw [acts, acts', same]
  cases done : (Step.execute code i).acts stack m with
  | ok stack' m' =>
    have first := Step.next_of_acts_eq_ok found goesOn done
    have first' := Step.next_of_acts_eq_ok found' goesOn' (alike.trans done)
    rw [acts] at done
    exact (after stack' m' done).next first first' rfl
  | error stop m' =>
    exact inStep_of_halts (Step.halts_of_acts_eq_error found goesOn done).2
      (Step.halts_of_acts_eq_error found' goesOn' (alike.trans done)).2 rfl

/-- A part behind which both codes jump to another place. -/
theorem inStep_jump {t t' : Nat} (found : code.instructions[o]? = some (.jumpTo .jump t))
    (found' : code'.instructions[o']? = some (.jumpTo .jump t')) {m : Machine} {stack : List Slot}
    (h : InStep code code' budget ⟨m, stack, t⟩ ⟨m, stack, t'⟩) :
    InStep code code' (budget + 1) ⟨m, stack, o⟩ ⟨m, stack, o'⟩ :=
  h.next (Step.next_jump found) (Step.next_jump found') rfl

theorem inStep_branch (keeps : Bool) {t t' : Nat}
    (found : code.instructions[o]? = some (.jumpTo (branchOp keeps) t))
    (found' : code'.instructions[o']? = some (.jumpTo (branchOp keeps) t'))
    (chosen : ∀ m stack, InStep code code' budget ⟨m, stack, o + 1⟩ ⟨m, stack, o' + 1⟩)
    (other : ∀ m stack, InStep code code' budget ⟨m, stack, t⟩ ⟨m, stack, t'⟩) (m : Machine)
    (stack : List Slot) : InStep code code' (budget + 1) ⟨m, stack, o⟩ ⟨m, stack, o'⟩ := by
  have hop : branchOp keeps = .jumpIfFalse ∨ branchOp keeps = .jumpIfFalseOrPop ∨
      branchOp keeps = .jumpIfTrueOrPop := by
    cases keeps <;> simp [branchOp]
  refine inStep_tested hop hop found found' ?_
  rintro v below rfl
  have first := Step.next_branch keeps (m := m) (v := v) found below
  have first' := Step.next_branch keeps (m := m) (v := v) found' below
  cases truthy : v.truthy with
  | true =>
    rw [truthy, if_pos rfl] at first first'
    exact (chosen m below).next first first' rfl
  | false =>
    rw [truthy, if_neg Bool.false_ne_true] at first first'
    exact (other m _).next first first' rfl

theorem inStep_skip {operator : LogicalOperator} {t t' : Nat}
    (found : code.instructions[o]? = some (.jumpTo operator.op t))
    (found' : code'.instructions[o']? = some (.jumpTo operator.op t'))
    (body : ∀ m stack, InStep code code' budget ⟨m, stack, o + 1⟩ ⟨m, stack, o' + 1⟩)
    (after : ∀ m stack, InStep code code' budget ⟨m, stack, t⟩ ⟨m, stack, t'⟩) (m : Machine)
    (stack : List Slot) : InStep code code' (budget + 1) ⟨m, stack, o⟩ ⟨m, stack, o'⟩ := by
  have hop : operator.op = .jumpIfFalse ∨ operator.op = .jumpIfFalseOrPop ∨
      operator.op = .jumpIfTrueOrPop := by
    cases operator <;> simp [LogicalOperator.op]
  refine inStep_tested hop hop found found' ?_
  rintro v below rfl
  have first := Step.next_skip operator (m := m) (v := v) found below
  have first' := Step.next_skip operator (m := m) (v := v) found' below
  by_cases decides : operator.decides v = true
  · rw [if_pos decides] at first first'
    exact (after m _).next first first' rfl
  · rw [if_neg decides] at first first'
    exact (body m below).next first first' rfl

/-- A segment that stands in two codes runs in step with itself if what follows it does. -/
theorem inStep (a : Segment) (held : a.HeldBy code o n) (held' : a.HeldBy code' o' n')
    (after : ∀ m stack, InStep code code' budget ⟨m, stack, o + a.size⟩ ⟨m, stack, o' + a.size⟩)
    (m : Machine) (stack : List Slot) :
    InStep code code' budget ⟨m, stack, o⟩ ⟨m, stack, o'⟩ := by
  induction a generalizing o o' n n' budget m stack with
  | plain | named =>
    refine InStep.mono ?_ (Nat.le_succ budget)
    exact inStep_single rfl rfl held held' rfl fun stack' m' _ => after m' stack'
  | unused texts => exact after m stack
  | seq first second ih₁ ih₂ =>
    obtain ⟨held₁, held₂⟩ := heldBy_seq.mp held
    obtain ⟨held₁', held₂'⟩ := heldBy_seq.mp held'
    refine ih₁ held₁ held₁' (fun m stack => ?_) m stack
    refine ih₂ held₂ held₂' (fun m stack => ?_) m stack
    rw [Nat.add_assoc, Nat.add_assoc]
    exact after m stack
  | skip operator body ih =>
    obtain ⟨found, stands⟩ := stands_skip.mp held.stands
    obtain ⟨found', stands'⟩ := stands_skip.mp held'.stands
    have behind (p : Nat) : p + (skip operator body).size = p + 1 + body.size := by
      rw [size]
      omega
    rw [behind, behind] at after
    have inside := ih ⟨stands, held.named⟩ ⟨stands', held'.named⟩ after
    exact (inStep_skip found found' inside after m stack).mono (Nat.le_succ budget)
  | branch keeps consequent alternate ih₁ ih₂ =>
    obtain ⟨found, stands₁, toEnd, stands₂⟩ := stands_branch.mp held.stands
    obtain ⟨found', stands₁', toEnd', stands₂'⟩ := stands_branch.mp held'.stands
    obtain ⟨named₁, named₂⟩ := stands_append.mp held.named
    obtain ⟨named₁', named₂'⟩ := stands_append.mp held'.named
    have behind (p : Nat) : p + (branch keeps consequent alternate).size =
        p + 1 + consequent.size + 1 + alternate.size := by
      rw [size]
      omega
    rw [behind, behind] at after
    have chosen := ih₁ ⟨stands₁, named₁⟩ ⟨stands₁', named₁'⟩ fun m stack =>
      (inStep_jump toEnd toEnd' (after m stack)).mono (Nat.le_succ budget)
    have other := ih₂ ⟨stands₂, named₂⟩ ⟨stands₂', named₂'⟩ after
    exact (inStep_branch keeps found found' chosen other m stack).mono (Nat.le_succ budget)
  | cycle test body ih₁ ih₂ =>
    obtain ⟨stands₁, found, stands₂, back⟩ := stands_cycle.mp held.stands
    obtain ⟨stands₁', found', stands₂', back'⟩ := stands_cycle.mp held'.stands
    obtain ⟨named₁, named₂⟩ := stands_append.mp held.named
    obtain ⟨named₁', named₂'⟩ := stands_append.mp held'.named
    have behind (p : Nat) : p + (cycle test body).size = p + test.size + 1 + body.size + 1 := by
      rw [size]
      omega
    rw [behind, behind] at after
    -- A round takes a step at least, so that fewer steps are left for the next one.
    induction budget generalizing m stack with
    | zero => exact inStep_zero rfl
    | succ left rounds =>
      have after' (m : Machine) (stack : List Slot) := (after m stack).mono (Nat.le_succ left)
      have again := ih₂ ⟨stands₂, named₂⟩ ⟨stands₂', named₂'⟩ fun m stack =>
        (inStep_jump back back' (rounds after' m stack)).mono (Nat.le_succ left)
      exact ih₁ ⟨stands₁, named₁⟩ ⟨stands₁', named₁'⟩
        (inStep_branch false found found' again after') m stack
  | forever body ih =>
    obtain ⟨stands, back⟩ := stands_forever.mp held.stands
    obtain ⟨stands', back'⟩ := stands_forever.mp held'.stands
    clear after
    induction budget generalizing m stack with
    | zero => exact inStep_zero rfl
    | succ left rounds =>
      exact ih ⟨stands, held.named⟩ ⟨stands', held'.named⟩
        (fun m stack => inStep_jump back back' (rounds m stack)) m stack

end Segment

end StackScript
