import StackScript.Proofs.Meaning.Endings
import StackScript.Proofs.Segment.InStep

/-!
# Two ways to say one thing

A statement that chooses between two expressions, and the conditional expression, have different
code: the one drops the value that it tests when it jumps, and the other keeps it and drops it
afterwards. A compound assignment to a name reads the name through a reference, and its expansion
reads it anew. In both cases the two run alike.
-/

namespace StackScript

/-- A compound assignment is named after a binary operator, which is the one that it applies. -/
theorem AssignmentOperator.exists_binary {operator : AssignmentOperator}
    (compound : operator ≠ .assign) :
    ∃ binary, operator.binary? = some binary ∧ operator.name = binary.name ++ "Assign" := by
  cases operator with
  | assign => exact absurd rfl compound
  | _ => exact ⟨_, rfl, by decide⟩

theorem BinaryOperator.name_ne_empty (operator : BinaryOperator) : operator.name ≠ "" := by
  cases operator <;> decide

theorem AssignmentOperator.binary?_of_name {operator : AssignmentOperator} {binary : BinaryOperator}
    (named : operator.name = binary.name ++ "Assign") : operator.binary? = some binary := by
  by_cases plain : operator = .assign
  · subst plain
    have empty : "" ++ "Assign" = binary.name ++ "Assign" := named
    exact absurd ((String.append_left_inj "Assign").mp empty).symm binary.name_ne_empty
  · obtain ⟨other, applied, named'⟩ := exists_binary plain
    have same : other.name = binary.name :=
      (String.append_left_inj "Assign").mp (named'.symm.trans named)
    have read := congrArg BinaryOperator.ofName? same
    rw [BinaryOperator.ofName?_name, BinaryOperator.ofName?_name] at read
    rw [applied, read]

namespace CodeUnit

open Evaluate Running Segment

variable {u u' v v' : CodeUnit} {arena arena' : Arena} {start start' : Nat}

/-- A statement that chooses between two expressions. -/
def choice (test consequent alternate : Expression) (asBlock : Bool) : Source :=
  .statements [.ifElse test (.expression consequent) (some (.expression alternate))] asBlock

/-- A statement that chooses between two expressions ends as the conditional expression does, and
    leaves the same machine. Each takes no more steps than it has instructions. -/
theorem run_choice (test consequent alternate : Expression) (asBlock : Bool)
    (accepted : (u.compile (choice test consequent alternate asBlock) arena).result = .ok start)
    (accepted' : (u'.compile (.expression (.conditional test consequent alternate)) arena').result =
      .ok start') (m : Machine) :
    let v := (u.compile (choice test consequent alternate asBlock) arena).unit
    let v' := (u'.compile (.expression (.conditional test consequent alternate)) arena').unit
    ∃ ended steps steps', steps ≤ v.length - start ∧ steps' ≤ v'.length - start' ∧
      EndsAfter v.runnable (entered m start) steps ended ∧
      EndsAfter v'.runnable (entered m start') steps' ended := by
  intro v v'
  have segment : (choice test consequent alternate asBlock).segment =
      test.segment.seq (.branch false consequent.segment alternate.segment) := by
    cases asBlock <;> rfl
  have straight : (choice test consequent alternate asBlock).segment.isStraight = true := by
    simp [segment, isStraight, Expression.isStraight_segment]
  have same : (choice test consequent alternate asBlock).eval 0 =
      (Source.expression (.conditional test consequent alternate)).eval 0 := by
    cases asBlock <;> rfl
  obtain ⟨steps, bound, ends⟩ :=
    (adds_of_compile_eq_ok accepted).endsAfter_of_isStraight straight m
  obtain ⟨steps', bound', ends'⟩ :=
    (adds_of_compile_eq_ok accepted').endsAfter_of_isStraight (Expression.isStraight_segment _) m
  rw [same] at ends
  exact ⟨_, steps, steps', bound, bound', ends, ends'⟩

/-- One name takes the value of another. -/
def taking : Expression :=
  .assignment .assign (.name "a") (.name "b")

/-- The test sets a name, and then both stop at another name, which has no value. -/
theorem run_choice_taking :
    (({} : CodeUnit).compile (choice taking (.name "a") (.name "c") false) {}).result = .ok 0 ∧
      (({} : CodeUnit).compile (.expression (.conditional taking (.name "a") (.name "c")))
        {}).result = .ok 0 ∧
      (entered { globals := [("b", .null)] } 0).run
          (({} : CodeUnit).compile (choice taking (.name "a") (.name "c") false)
            {}).unit.runnable 9 =
        ⟨.outcome (.undeclared "c"), { globals := [("b", .null), ("a", .null)] }⟩ ∧
      (entered { globals := [("b", .null)] } 0).run
          (({} : CodeUnit).compile (.expression (.conditional taking (.name "a") (.name "c")))
            {}).unit.runnable 9 =
        ⟨.outcome (.undeclared "c"), { globals := [("b", .null), ("a", .null)] }⟩ := by
  have accepted :
      (({} : CodeUnit).compile (choice taking (.name "a") (.name "c") false)
        {}).result = .ok 0 := by
    decide +kernel
  have accepted' :
      (({} : CodeUnit).compile (.expression (.conditional taking (.name "a") (.name "c")))
        {}).result = .ok 0 := by
    decide +kernel
  have length :
      (({} : CodeUnit).compile (choice taking (.name "a") (.name "c") false)
        {}).unit.length = 8 := by
    decide +kernel
  have length' :
      (({} : CodeUnit).compile (.expression (.conditional taking (.name "a") (.name "c")))
        {}).unit.length = 9 := by
    decide +kernel
  have value :
      ((choice taking (.name "a") (.name "c") false).eval 9).ended { globals := [("b", .null)] } =
        ⟨.outcome (.undeclared "c"), { globals := [("b", .null), ("a", .null)] }⟩ := rfl
  obtain ⟨ended, steps, steps', bound, bound', ends, ends'⟩ :=
    run_choice taking (.name "a") (.name "c") false accepted accepted' { globals := [("b", .null)] }
  rw [length] at bound
  rw [length'] at bound'
  have enough : steps ≤ 9 := by omega
  have same := (adds_of_compile_eq_ok accepted).ended_eq_of_endsAfter ends enough
  rw [value] at same
  subst same
  exact ⟨accepted, accepted', ends.ends 9 enough, ends'.ends 9 bound'⟩

/-! ## Compound assignment -/

/-- The expansion of a compound assignment to a name. -/
def expanded (binary : BinaryOperator) (name : String) (value : Expression) : Expression :=
  .assignment .assign (.name name) (.binary binary (.name name) value)

variable {operator : AssignmentOperator} {binary : BinaryOperator} {name : String}
  {value : Expression}

theorem segment_compound (applied : operator.binary? = some binary) :
    (Source.expression (.assignment operator (.name name) value)).segment =
      ((Expression.name name).referenceSegment true).seq ((Segment.op .deref).seq
        (value.segment.seq ((Segment.op binary.op binary.goesOn_op).seq (.op .assign)))) := by
  rw [Source.segment, Expression.segment, applied]
  rfl

theorem segment_expanded :
    (Source.expression (expanded binary name value)).segment =
      ((Expression.name name).referenceSegment true).seq (((onName .loadName name).seq
        (value.segment.seq (Segment.op binary.op binary.goesOn_op))).seq (.op .assign)) := rfl

theorem Adds.heldBy {source : Source} (added : u.Adds source start v) :
    source.segment.HeldBy v.runnable start u.pool.length :=
  ⟨added.stands.1, added.stands_names⟩

/-- The codes differ in their second instruction, which finds the reference to the name on the
    stack. Both push what the name has, or stop because it has nothing. -/
theorem inStep_compound (applied : operator.binary? = some binary)
    (added : u.Adds (.expression (.assignment operator (.name name) value)) start v)
    (added' : u'.Adds (.expression (expanded binary name value)) start' v') (m : Machine)
    (budget : Nat) :
    InStep v.runnable v'.runnable budget (entered m start) (entered m start') := by
  have held := added.heldBy
  have held' := added'.heldBy
  rw [segment_compound applied] at held
  rw [segment_expanded, heldBy_seq, heldBy_seq_assoc, heldBy_seq, heldBy_seq_assoc] at held'
  obtain ⟨resolve, held⟩ := heldBy_seq.mp held
  obtain ⟨deref, rest⟩ := heldBy_seq.mp held
  obtain ⟨resolve', load', rest'⟩ := held'
  -- Two instructions are compared one by one. Behind them both codes hold the same segment.
  refine InStep.mono ?_ (Nat.le_add_right budget 2)
  refine inStep_single rfl rfl resolve resolve' rfl fun stack m' resolved => ?_
  cases resolved
  have same : (onName .loadName name).exec 0 [.reference (.name name)] m =
      (Segment.op .deref).exec 0 [.reference (.name name)] m := by
    rw [exec_loadName, exec_deref]
  refine inStep_single rfl rfl deref load' same fun stack m' read => ?_
  refine inStep _ rest rest' (fun m stack => ?_) m' stack
  have ret := added.stands.2
  have ret' := added'.stands.2
  rw [stopOf, segment_compound applied] at ret
  rw [stopOf, segment_expanded] at ret'
  simp only [size, ← Nat.add_assoc] at ret ret' ⊢
  exact inStep_of_halts (halts_return ret) (halts_return ret') rfl

/-- A name without a value is found out before the value to combine it with is evaluated. -/
theorem ended_compound_of_undeclared (applied : operator.binary? = some binary) {m : Machine}
    (undeclared : m.globals.get? name = none) :
    (Expression.assignment operator (.name name) value).eval.ended m =
      ⟨.outcome (.undeclared name), m⟩ := by
  have stops : Evaluate.read (.name name) m = .error (.outcome (.undeclared name)) m := by
    have missing : m.read (.name name) = .error (.outcome (.undeclared name)) := by
      rw [Machine.read, undeclared]
    unfold Evaluate.read
    rw [get_bind, missing]
    rfl
  have first : (Expression.assignment operator (.name name) value).eval =
      Evaluate.read (.name name) >>= fun old => value.eval >>= fun right =>
        binary.apply old right >>= fun new => write (.name name) new >>= fun _ => pure new := by
    rw [Expression.eval, Expression.place?, operator.combine?_eq, applied]
    rfl
  rw [ended, first, bind_of_eq_error stops]

/-- A compound assignment to a name and its expansion are in the same state after any number of
    steps, so they end alike and in the same step. A name that has no value ends them before
    anything is done. -/
theorem run_compound_assignment (compound : operator.name = binary.name ++ "Assign") (name : String)
    (value : Expression)
    (accepted : (u.compile (.expression (.assignment operator (.name name) value)) arena).result =
      .ok start)
    (accepted' : (u'.compile (.expression (expanded binary name value)) arena').result = .ok start')
    (m : Machine) :
    let v := (u.compile (.expression (.assignment operator (.name name) value)) arena).unit
    let v' := (u'.compile (.expression (expanded binary name value)) arena').unit
    (∀ budget, (entered m start').run v'.runnable budget =
      (entered m start).run v.runnable budget) ∧
      ∃ ended steps, steps ≤ v.length - start ∧
        EndsAfter v.runnable (entered m start) steps ended ∧
        EndsAfter v'.runnable (entered m start') steps ended ∧
        (m.globals.get? name = none → ended = ⟨.outcome (.undeclared name), m⟩) := by
  intro v v'
  have added := adds_of_compile_eq_ok accepted
  have added' := adds_of_compile_eq_ok accepted'
  have applied := AssignmentOperator.binary?_of_name compound
  have alike (budget : Nat) :
      (entered m start').run v'.runnable budget = (entered m start).run v.runnable budget :=
    inStep_compound applied added added' m budget budget (Nat.le_refl budget)
  obtain ⟨steps, bound, ends⟩ := added.endsAfter_of_isStraight (Expression.isStraight_segment _) m
  exact ⟨alike, _, steps, bound, ends, ends.of_run_eq alike, ended_compound_of_undeclared applied⟩

/-- The name is read before the value sets it, in the compound assignment and in its expansion. -/
theorem run_compound_assignment_taking :
    (({} : CodeUnit).compile (.expression (.assignment .add (.name "a") taking)) {}).result =
        .ok 0 ∧
      (({} : CodeUnit).compile (.expression (expanded .add "a" taking)) {}).result = .ok 0 ∧
      (entered { globals := [("a", .string "x"), ("b", .string "y")] } 0).run
          (({} : CodeUnit).compile (.expression (expanded .add "a" taking)) {}).unit.runnable 8 =
        ⟨.outcome (.returned (.string "xy")),
          { globals := [("a", .string "xy"), ("b", .string "y")] }⟩ := by
  have accepted :
      (({} : CodeUnit).compile (.expression (.assignment .add (.name "a") taking)) {}).result =
        .ok 0 := by
    decide +kernel
  have accepted' :
      (({} : CodeUnit).compile (.expression (expanded .add "a" taking)) {}).result = .ok 0 := by
    decide +kernel
  have length :
      (({} : CodeUnit).compile (.expression (.assignment .add (.name "a") taking)) {}).unit.length =
        8 := by
    decide +kernel
  have value : ((Source.expression (.assignment .add (.name "a") taking)).eval 8).ended
      { globals := [("a", .string "x"), ("b", .string "y")] } =
        ⟨.outcome (.returned (.string "xy")),
          { globals := [("a", .string "xy"), ("b", .string "y")] }⟩ := rfl
  have named : AssignmentOperator.add.name = BinaryOperator.add.name ++ "Assign" := by decide
  obtain ⟨alike, ended, steps, bound, ends, -⟩ :=
    run_compound_assignment named "a" taking accepted accepted'
      { globals := [("a", .string "x"), ("b", .string "y")] }
  rw [length] at bound
  have same := (adds_of_compile_eq_ok accepted).ended_eq_of_endsAfter ends bound
  rw [value] at same
  subst same
  exact ⟨accepted, accepted', (alike 8).trans (ends.ends 8 bound)⟩

end CodeUnit

end StackScript
