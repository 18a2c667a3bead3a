import StackScript.Proofs.Meaning.Statement

/-!
# Compiled code means what its source means

Running an entry point ends as evaluating its source ends, with the same state of the machine. An
expression takes no more steps than it has instructions. For statements, which may go on for ever, a
run ends for some number of steps if and only if evaluation ends for some number of rounds.
-/

namespace StackScript

open Evaluate Running

theorem Source.exec_segment (fuel : Nat) (source : Source) (stack : List Slot) :
    source.segment.exec fuel stack = source.eval fuel >>= fun v => pure (.value v :: stack) := by
  cases source with
  | expression tree => exact tree.exec_segment fuel stack
  | statements body asBlock => exact block_exec fuel _ stack

namespace CodeUnit

/-- The code and the names of the unit, to be run. -/
def runnable (u : CodeUnit) : Runnable :=
  ⟨u.instructions, u.names⟩

/-- The machine at the start of an entry point. -/
def entered (m : Machine) (start : Nat) : Running :=
  { machine := m, offset := start }

variable {u v : CodeUnit} {source : Source} {arena : Arena} {start : Nat}

theorem toList_texts (u : CodeUnit) : u.runnable.texts.toList = u.pool := by
  unfold Runnable.texts runnable pool
  cases u.names <;> rfl

theorem Adds.stands_names (added : u.Adds source start v) :
    Stands v.runnable.texts u.pool.length source.segment.names :=
  stands_of_toList_eq _ (v.toList_texts.trans added.names)

/-- The code of an entry point follows its segment up to the return. -/
theorem Adds.follows (added : u.Adds source start v) (fuel : Nat) (m : Machine) :
    Follows v.runnable fuel source.segment.isStraight source.segment.size (entered m start)
      (stopOf source start) (source.segment.exec fuel [] m) :=
  Segment.follows_exec _ fuel added.stands.1 added.stands_names m []

/-- The return gives the value that is left. -/
theorem Adds.halts_return (added : u.Adds source start v) (m : Machine) (value : Value) :
    Halts v.runnable 0 ⟨m, [.value value], stopOf source start⟩
      ⟨.outcome (.returned value), m⟩ := by
  have found : v.runnable.instructions[stopOf source start]? = some { op := .ret } := added.stands.2
  exact ⟨_, ⟨m, [], stopOf source start + 1⟩, rfl, Step.next_eq found, rfl⟩

/-- The run of an entry point ends as evaluation ends, unless evaluation runs out of rounds. Then
    the run has at least as many steps, and the source has a loop. -/
theorem Adds.halts_or_exhausts (added : u.Adds source start v) (fuel : Nat) (m : Machine) :
    (((source.eval fuel).ended m).stop ≠ .fault .outOfSteps ∧
      ∃ k, (source.segment.isStraight = true → k ≤ source.segment.size) ∧
        Halts v.runnable k (entered m start) ((source.eval fuel).ended m)) ∨
    (((source.eval fuel).ended m).stop = .fault .outOfSteps ∧ source.segment.isStraight = false ∧
      ∃ k r, fuel ≤ k ∧ Steps v.runnable k (entered m start) r) := by
  have follows := added.follows fuel m
  rw [source.exec_segment] at follows
  simp only [Bind.bind, EStateM.bind] at follows
  unfold ended
  cases h : source.eval fuel m with
  | ok value m' =>
    simp only [h] at follows
    have result : (pure [.value value] : Evaluate (List Slot)) m' = .ok [.value value] m' := rfl
    rw [result] at follows
    cases follows with
    | goes bound steps =>
      exact .inl ⟨by simp, _, bound, steps.halts (added.halts_return m' value)⟩
  | error stop m' =>
    rw [h] at follows
    cases follows with
    | halts bound real halts => exact .inl ⟨real, _, fun h => Nat.le_of_lt (bound h), halts⟩
    | exhausts loops enough steps => exact .inr ⟨rfl, loops, _, _, enough, steps⟩

/-- The run of the code of an expression ends as the expression does, within as many steps as there
    are instructions. -/
theorem run_expression (tree : Expression)
    (h : (u.compile (.expression tree) arena).result = .ok start) (m : Machine) :
    let v := (u.compile (.expression tree) arena).unit
    ∃ steps, steps ≤ v.length - start ∧
      (∀ budget, steps ≤ budget →
        (entered m start).run v.runnable budget = tree.eval.ended m) ∧
      (∀ budget, budget < steps →
        ((entered m start).run v.runnable budget).stop = .fault .outOfSteps) ∧
      (tree.eval.ended m).stop ≠ .fault .outOfSteps := by
  intro v
  have added := adds_of_compile_eq_ok h
  have straight : (Source.expression tree).segment.isStraight = true := tree.isStraight_segment
  have size : v.length = stopOf (.expression tree) start + 1 := added.size_eq
  obtain ⟨real, k, bound, halts⟩ | ⟨-, loops, -⟩ := added.halts_or_exhausts 0 m
  · refine ⟨k + 1, ?_, ?_, ?_, real⟩
    · have := bound straight
      rw [size, stopOf]
      omega
    · intro budget le
      exact run_of_halts halts le
    · intro budget lt
      obtain ⟨r, -, steps, -⟩ := halts
      exact run_of_steps_of_le steps (Nat.le_of_lt_succ lt)
  · rw [straight] at loops
    cases loops

/-- One name is added to another. -/
def addition : Expression :=
  .assignment .add (.name "a") (.name "b")

/-- Adding in place takes no more steps than the six instructions of its code. -/
theorem run_expression_addition :
    (({} : CodeUnit).compile (.expression addition) {}).result = .ok 0 ∧
      (({} : CodeUnit).compile (.expression addition) {}).unit.length = 6 ∧
      (entered { globals := [("a", .string "x"), ("b", .string "y")] } 0).run
          (({} : CodeUnit).compile (.expression addition) {}).unit.runnable 6 =
        ⟨.outcome (.returned (.string "xy")),
          { globals := [("a", .string "xy"), ("b", .string "y")] }⟩ := by
  have accepted : (({} : CodeUnit).compile (.expression addition) {}).result = .ok 0 := by
    decide +kernel
  have length : (({} : CodeUnit).compile (.expression addition) {}).unit.length = 6 := by
    decide +kernel
  have value : addition.eval.ended { globals := [("a", .string "x"), ("b", .string "y")] } =
      ⟨.outcome (.returned (.string "xy")),
        { globals := [("a", .string "xy"), ("b", .string "y")] }⟩ := rfl
  obtain ⟨steps, bound, ends, -⟩ := run_expression addition accepted
    { globals := [("a", .string "x"), ("b", .string "y")] }
  exact ⟨accepted, length, (ends 6 (length ▸ bound)).trans value⟩

/-- A run of the code of a source ends in some number of steps if and only if the source does in
    some number of rounds, and then it ends in the same way. -/
theorem run_source (h : (u.compile source arena).result = .ok start) (m : Machine) (e : Ended)
    (real : e.stop ≠ .fault .outOfSteps) :
    (∃ budget, (entered m start).run (u.compile source arena).unit.runnable budget = e) ↔
      ∃ fuel, (source.eval fuel).ended m = e := by
  have added := adds_of_compile_eq_ok h
  constructor
  · rintro ⟨budget, rfl⟩
    refine ⟨budget, ?_⟩
    obtain ⟨-, k, -, halts⟩ | ⟨-, -, k, r, enough, steps⟩ :=
      added.halts_or_exhausts budget m
    · by_cases lt : k < budget
      · exact (run_of_halts halts lt).symm
      · obtain ⟨r, -, steps, -⟩ := halts
        exact absurd (run_of_steps_of_le steps (Nat.le_of_not_lt lt)) real
    · exact absurd (run_of_steps_of_le steps enough) real
  · rintro ⟨fuel, rfl⟩
    obtain ⟨-, k, -, halts⟩ | ⟨stop, -⟩ := added.halts_or_exhausts fuel m
    · exact ⟨k + 1, run_of_halts halts (Nat.lt_succ_self k)⟩
    · exact absurd stop real

/-- A loop, and a statement behind it that needs the tree walker. -/
def loopAndReturn : Source :=
  .statements
    [.whileLoop (.name "a") (.expression (.assignment .assign (.name "a") (.name "b"))),
      .ifElse (.name "c") (.ret none) none] true

/-- The loop takes a round, and then the run stops for the tree walker. -/
theorem run_source_loopAndReturn :
    (({} : CodeUnit).compile loopAndReturn {}).result = .ok 0 ∧
      ∃ budget,
        (entered { globals := [("a", .bool true), ("b", .bool false), ("c", .bool true)] } 0).run
            (({} : CodeUnit).compile loopAndReturn {}).unit.runnable budget =
          ⟨.outcome (.escaped "return"),
            { globals := [("a", .bool false), ("b", .bool false), ("c", .bool true)] }⟩ := by
  have accepted : (({} : CodeUnit).compile loopAndReturn {}).result = .ok 0 := by decide +kernel
  have value : (loopAndReturn.eval 2).ended
      { globals := [("a", .bool true), ("b", .bool false), ("c", .bool true)] } =
        ⟨.outcome (.escaped "return"),
          { globals := [("a", .bool false), ("b", .bool false), ("c", .bool true)] }⟩ := rfl
  exact ⟨accepted, (run_source accepted _ _ (by simp)).mpr ⟨2, value⟩⟩

end CodeUnit

end StackScript
