import Mathlib.Order.Interval.Finset.Nat
import StackScript.Proofs.Segment.Completion
import StackScript.Proofs.Segment.Depth
import StackScript.Proofs.Unit.History

/-!
# What the stack check reports

The report about an entry point can be read off the tree. Control gets to the return if the
statements can complete, and to every instruction unless a `for` without a test stands in the way.
For an expression the greatest depth is that of the expression.
-/

namespace StackScript

open StackCheck

namespace CodeUnit

variable {u v : CodeUnit} {source : Source} {start : Nat} {report : StackReport}

/-- Control stays between the start and the return. -/
theorem Adds.reaches_within (added : u.Adds source start v) {o : Nat}
    (reaches : Reaches v.instructions start o) :
    start ≤ o ∧ o ≤ stopOf source start := by
  obtain ⟨shape, empty, -, typed⟩ := added.exists_typed
  obtain ⟨spot, reached, rfl⟩ := added.sound.mem_offsets_iff.mpr reaches
  obtain ⟨above, below, -⟩ :=
    depth_of_reachable typed (Nat.le_add_right _ _) empty added.stands.2 reached
  exact ⟨above, below⟩

/-- There is no return but the one at the end. -/
theorem Adds.eq_stopOf_of_ret (added : u.Adds source start v) {o : Nat} {i : Instruction}
    (above : start ≤ o)
    (below : o ≤ stopOf source start) (found : v.instructions[o]? = some i)
    (returns : i.op = .ret) :
    o = stopOf source start := by
  obtain ⟨shape, -, -, typed⟩ := added.exists_typed
  by_cases last : o = stopOf source start
  · exact last
  · exact absurd returns (typed.agrees above (by omega) found).stays

theorem Adds.offsets_returning (added : u.Adds source start v) :
    Spot.offset '' returning v.instructions {spot | Reachable v.instructions start spot} =
      {o | o = stopOf source start ∧ Reaches v.instructions start o} := by
  ext o
  constructor
  · intro mem
    obtain ⟨spot, ⟨reached, i, found, returns⟩, rfl⟩ := mem
    have reaches := added.sound.mem_offsets_iff.mp ⟨spot, reached, rfl⟩
    obtain ⟨above, below⟩ := added.reaches_within reaches
    exact ⟨added.eq_stopOf_of_ret above below found returns, reaches⟩
  · intro mem
    obtain ⟨rfl, reaches⟩ := mem
    obtain ⟨spot, reached, last⟩ := added.sound.mem_offsets_iff.mpr reaches
    refine ⟨spot, ⟨reached, { op := .ret }, ?_, rfl⟩, last⟩
    rw [last]
    exact added.stands.2

/-- The return is reported if and only if the code completes. -/
theorem Adds.returns_eq (added : u.Adds source start v) (checked : v.check start = .ok report) :
    report.returns = if source.segment.completes then 1 else 0 := by
  rw [(describes_of_run_eq_ok checked).returns, added.offsets_returning]
  by_cases completes : source.segment.completes = true
  · have reaches := source.segment.reaches_end completes added.stands.1
    have only : {o | o = stopOf source start ∧ Reaches v.instructions start o} =
        {stopOf source start} := by
      ext o
      constructor
      · intro mem
        exact mem.1
      · intro last
        obtain rfl := Set.mem_singleton_iff.mp last
        exact ⟨rfl, reaches⟩
    rw [only, Set.ncard_singleton, if_pos completes]
  · have none : {o | o = stopOf source start ∧ Reaches v.instructions start o} = ∅ := by
      rw [Set.eq_empty_iff_forall_notMem]
      intro o mem
      obtain ⟨rfl, reaches⟩ := mem
      obtain ⟨offsets, trap, first, inside⟩ :=
        source.segment.exists_trap (Bool.not_eq_true _ ▸ completes) added.stands.1
      exact absurd (inside (trap.reaches first reaches)).2 (Nat.lt_irrefl _)
    rw [none, Set.ncard_empty, if_neg completes]

/-- All instructions of the entry point are reported if nothing is repeated without a test. -/
theorem Adds.reachable_eq (added : u.Adds source start v) (tested : source.segment.isTested = true)
    (checked : v.check start = .ok report) : report.reachable = v.length - u.length := by
  have all : Spot.offset '' {spot | Reachable v.instructions start spot} =
      Set.Icc start (stopOf source start) := by
    ext o
    rw [added.sound.mem_offsets_iff]
    constructor
    · exact fun reaches => added.reaches_within reaches
    · exact fun mem => source.segment.reaches_each tested added.stands.1 mem.1 mem.2
  rw [(describes_of_run_eq_ok checked).reachable, all, Set.ncard_eq_toFinset_card',
    Set.toFinset_Icc, Nat.card_Icc, ← added.size_eq, added.start_eq]
  rfl

/-- The greatest depth that is reported for code without loops. -/
theorem Adds.maxDepth_eq (added : u.Adds source start v) {after peak : Nat}
    (climbs : source.segment.Climbs 0 after peak) (tested : source.segment.isTested = true)
    (checked : v.check start = .ok report) : report.maxDepth = peak := by
  obtain ⟨shape, empty, single, typed⟩ := added.exists_typed
  have stands := added.stands
  have reach {spot : Spot} (reached : Reachable v.instructions start spot) :=
    depth_of_reachable typed (Nat.le_add_right _ _) empty stands.2 reached
  have scales := climbs.scales stands.1 typed (by rw [empty]; rfl)
  have greatest := isGreatest_maxDepth checked
  apply Nat.le_antisymm
  · obtain ⟨spot, reached, i, found, depth | depth⟩ := greatest.1
    · obtain ⟨above, below, height⟩ := reach reached
      rw [depth, height]
      exact scales.bound _ above below
    · obtain ⟨above, below, height⟩ := reach reached
      rw [depth, height]
      by_cases last : spot.offset = stopOf source start
      · rw [last, stands.2] at found
        cases found
        rw [last, single]
        exact Nat.zero_le _
      · -- The depth behind an instruction is the depth where control goes on.
        have agrees := typed.agrees above (by omega) found
        by_cases jumps : i.op = .jump
        · obtain ⟨t, -, lo, hi, turns⟩ := agrees.taken (.inl jumps)
          rw [depthAfter_of_turns turns]
          exact scales.bound t lo hi
        · rw [depthAfter_of_turns (agrees.onward jumps)]
          exact scales.bound _ (by omega) (by show spot.offset + 1 ≤ stopOf source start; omega)
  · obtain ⟨p, above, below, high⟩ := scales.attained
    obtain ⟨spot, reached, rfl⟩ := added.sound.mem_offsets_iff.mpr
      (source.segment.reaches_each tested stands.1 above below)
    have inside : spot.offset < v.instructions.size := by
      rw [added.size_eq]
      exact Nat.lt_succ_of_le below
    rw [← high, ← (reach reached).2.2]
    exact greatest.2 ⟨spot, reached, _, Array.getElem?_eq_getElem inside, .inl rfl⟩

/-- As long as memory lasts, the check of an expression finds its return, reaches every instruction
    that was emitted for it, and finds the stack to grow as high as the expression is deep. -/
theorem check_of_expression (settings : Settings) (calls : List (Source × Arena))
    (tree : Expression) (arena : Arena)
    (start : Nat) (lasts : ({ settings } : CodeUnit).Lasts calls) :
    let u := ({ settings } : CodeUnit).after calls
    (u.compile (.expression tree) arena).result = .ok start →
      let v := (u.compile (.expression tree) arena).unit
      v.check start =
        .ok { maxDepth := tree.depth, reachable := v.length - u.length, returns := 1 } := by
  intro u accepted v
  have added := adds_of_compile_eq_ok accepted
  have tested : (Source.expression tree).segment.isTested = true :=
    Segment.isTested_of_isStraight tree.isStraight_segment
  have climbs := tree.climbs 0
  rw [Nat.zero_add, Nat.zero_add] at climbs
  obtain ⟨report, checked⟩ := added.exists_check (jumpsKnown_after settings lasts)
  have depth := added.maxDepth_eq climbs tested checked
  have reachable := added.reachable_eq tested checked
  have returns := added.returns_eq checked
  rw [if_pos (Segment.completes_of_isTested tested)] at returns
  rw [checked, ← depth, ← reachable, ← returns]

/-- Adds to an element what a call gives that takes an object. -/
def addedCall : Expression :=
  .assignment .add (.index (.name "o") (.name "k"))
    (.call (.name "f") [.name "x", .object [⟨.name "p", .name "y"⟩]])

/-- Below the value of the property there are the place, what was there, the callee, an argument and
    the object. -/
theorem check_of_addedCall :
    let u := ({ settings := { allowEscape := false } } : CodeUnit).after mixedCalls
    let v := (u.compile (.expression addedCall) {}).unit
    (u.compile (.expression addedCall) {}).result = .ok 11 ∧
      v.check 11 = .ok { maxDepth := 6, reachable := 13, returns := 1 } := by
  have answered : ({ settings := { allowEscape := false } } : CodeUnit).answers mixedCalls =
      [.ok 0, .error .needsWalker, .ok 7] := by decide +kernel
  have accepted : ((({ settings := { allowEscape := false } } : CodeUnit).after mixedCalls).compile
      (.expression addedCall) {}).result = .ok 11 := by decide +kernel
  have emitted : ((({ settings := { allowEscape := false } } : CodeUnit).after mixedCalls).compile
      (.expression addedCall) {}).unit.length = 24 := by decide +kernel
  have before : (({ settings := { allowEscape := false } } : CodeUnit).after mixedCalls).length =
      11 := by decide +kernel
  have deep : addedCall.depth = 6 := by decide +kernel
  have lasts : ({ settings := { allowEscape := false } } : CodeUnit).Lasts mixedCalls := by
    intro region
    simp [answered]
  have checked :=
    check_of_expression { allowEscape := false } mixedCalls addedCall {} 11 lasts accepted
  dsimp only at checked
  rw [emitted, before, deep] at checked
  exact ⟨accepted, checked⟩

/-- As long as memory lasts, the check of statements finds their return if all of them can complete,
    and only then. If each `for` that is not handed over to the tree walker has a test, it reaches
    every instruction that was emitted. -/
theorem check_of_statements (settings : Settings) (calls : List (Source × Arena))
    (body : List Statement) (asBlock : Bool)
    (arena : Arena) (start : Nat) (lasts : ({ settings } : CodeUnit).Lasts calls) :
    let u := ({ settings } : CodeUnit).after calls
    (u.compile (.statements body asBlock) arena).result = .ok start →
      let v := (u.compile (.statements body asBlock) arena).unit
      let trees := Source.selected body asBlock
      ∃ report, v.check start = .ok report ∧
        report.returns = (if trees.all Statement.completes then 1 else 0) ∧
        (trees.all Statement.isTested = true → report.reachable = v.length - u.length) := by
  intro u accepted v trees
  have added := adds_of_compile_eq_ok accepted
  obtain ⟨report, checked⟩ := added.exists_check (jumpsKnown_after settings lasts)
  refine ⟨report, checked, ?_, ?_⟩
  · rw [added.returns_eq checked, ← blockCompletes_eq_all]
    exact congrArg (fun completes => if completes = true then 1 else 0)
      (block_completes_segment trees)
  · intro tested
    rw [← blockIsTested_eq_all] at tested
    exact added.reachable_eq (block_isTested_segment trees tested) checked

/-- A `for` that is never left, as one of two branches and as the body of another loop. -/
def endlessLoops : List Statement :=
  [.ifElse (.name "a") (.forLoop none none none .empty) none,
    .doWhile (.forLoop none none none .empty) (.name "b"), .expression (.name "c")]

/-- One `for` has a test, and the other is handed over to the tree walker. -/
def testedLoops : List Statement :=
  [.ifElse (.name "a") (.forLoop none (some (.name "b")) none .empty)
    (some (.forLoop none none none (.breakTo none)))]

/-- The first choice completes, but the loop behind it does not; of the other choice everything can
    be reached. -/
theorem check_of_statements_loops :
    let v := (({} : CodeUnit).compile (.statements endlessLoops true) {}).unit
    let w := (({} : CodeUnit).compile (.statements testedLoops true) {}).unit
    (∃ report, v.check 0 = .ok report ∧ report.returns = 0) ∧
      ∃ report, w.check 0 = .ok report ∧ report.returns = 1 ∧ report.reachable = 11 := by
  have accepted : (({} : CodeUnit).compile (.statements endlessLoops true) {}).result = .ok 0 := by
    decide +kernel
  have accepted' : (({} : CodeUnit).compile (.statements testedLoops true) {}).result = .ok 0 := by
    decide +kernel
  have emitted : (({} : CodeUnit).compile (.statements testedLoops true) {}).unit.length = 11 := by
    decide +kernel
  have endless : (Source.selected endlessLoops true).all Statement.completes = false := rfl
  have complete : (Source.selected testedLoops true).all Statement.completes = true := rfl
  have tested : (Source.selected testedLoops true).all Statement.isTested = true := rfl
  have lasts : ({} : CodeUnit).Lasts [] := by simp [Lasts, answers]
  obtain ⟨report, checked, returns, -⟩ :=
    check_of_statements {} [] endlessLoops true {} 0 lasts accepted
  obtain ⟨report', checked', returns', reachable⟩ :=
    check_of_statements {} [] testedLoops true {} 0 lasts accepted'
  rw [endless] at returns
  rw [complete] at returns'
  have all := reachable tested
  dsimp only [after] at all
  rw [emitted] at all
  exact ⟨⟨report, checked, returns⟩, report', checked', returns', all⟩

end CodeUnit

end StackScript
