import StackScript.Proofs.Segment.Typing
import StackScript.Proofs.StackCheck.Append
import StackScript.Proofs.Unit.Entry

/-!
# The history of a unit

Trees are compiled into a unit one after the other. As long as memory lasts, the code only grows by
whole entry points, each of which passes the stack check, then and ever after.
-/

namespace StackScript

open StackCheck

theorem Source.fits (source : Source) (s : Shape) : source.segment.Fits s (.value :: s) := by
  cases source with
  | expression tree => exact tree.fits s
  | statements body asBlock => exact block_fits _ s

theorem Instruction.Agrees.exists_target {i : Instruction} {shape : Nat → Shape} {lo hi o : Nat}
    (h : i.Agrees shape lo hi o) (jumps : i.op.isJump = true) :
    ∃ t, i.operand = some (.jump t) ∧ lo ≤ t ∧ t ≤ hi := by
  rcases Op.isJump_cases jumps with hop | hop
  · obtain ⟨t, operand, hlo, hhi, -⟩ := h.taken hop
    exact ⟨t, operand, hlo, hhi⟩
  · obtain ⟨t, operand, hlo, hhi, -⟩ := h.kept hop
    exact ⟨t, operand, hlo, hhi⟩

namespace CodeUnit

variable {u v : CodeUnit} {source : Source} {arena : Arena} {start : Nat}

/-- An entry point has shapes, from the empty stack to the one value that it returns. -/
theorem Adds.exists_typed (added : u.Adds source start v) :
    ∃ shape : Nat → Shape, shape start = [] ∧ shape (stopOf source start) = [.value] ∧
      Typed v.instructions shape start (stopOf source start) start (stopOf source start) :=
  Segment.typable_of_fits _ (source.fits []) added.stands.1

theorem Adds.sound (added : u.Adds source start v) : Sound v.instructions start := by
  obtain ⟨shape, empty, single, typed⟩ := added.exists_typed
  exact sound_of_typed typed (Nat.le_add_right _ _) empty single added.stands.2

/-- The jumps of an entry point stay between its start and its return. -/
theorem Adds.exists_target (added : u.Adds source start v) {o : Nat} {i : Instruction}
    (above : start ≤ o) (found : v.instructions[o]? = some i) (jumps : i.op.isJump = true) :
    ∃ t, i.operand = some (.jump t) ∧ start ≤ t ∧ t ≤ stopOf source start := by
  have inside : o < v.instructions.size := (Array.getElem?_eq_some_iff.mp found).1
  rw [added.size_eq] at inside
  by_cases last : o = stopOf source start
  · rw [last, added.stands.2] at found
    cases found
    cases jumps
  · obtain ⟨shape, -, -, typed⟩ := added.exists_typed
    obtain ⟨j, here, agrees⟩ := typed o above (by omega)
    obtain rfl : j = i := Option.some.inj (here.symm.trans found)
    exact agrees.exists_target jumps

theorem Adds.jumpsKnown (added : u.Adds source start v) (known : JumpsKnown u.instructions) :
    JumpsKnown v.instructions := by
  intro offset i found jumps
  have size := added.size_eq
  have inside : offset < v.instructions.size := (Array.getElem?_eq_some_iff.mp found).1
  by_cases old : offset < start
  · rw [added.getElem?_of_lt old] at found
    obtain ⟨t, ht, operand⟩ := known offset i found jumps
    have le : u.instructions.size ≤ stopOf source start := by
      rw [stopOf, added.start_eq, CodeUnit.length]
      omega
    exact ⟨t, by omega, operand⟩
  · obtain ⟨t, operand, -, ht⟩ := added.exists_target (by omega) found jumps
    exact ⟨t, by omega, operand⟩

/-- An entry point passes the check if all jumps before it are known. -/
theorem Adds.exists_check (added : u.Adds source start v) (known : JumpsKnown u.instructions) :
    ∃ report, v.check start = .ok report := by
  have inside : start < v.instructions.size := by
    rw [added.size_eq, stopOf]
    omega
  exact exists_run_eq_ok inside (added.jumpsKnown known) added.sound

/-- The unit after trees have been compiled one after the other. The arena may be any each time:
    other units copy into it as well. -/
def after (u : CodeUnit) : List (Source × Arena) → CodeUnit
  | [] => u
  | (source, arena) :: rest => (u.compile source arena).unit.after rest

/-- The answers to compiling trees one after the other. -/
def answers (u : CodeUnit) : List (Source × Arena) → List (Except CompileError Nat)
  | [] => []
  | (source, arena) :: rest =>
    (u.compile source arena).result :: (u.compile source arena).unit.answers rest

/-- Memory lasts while the trees are compiled. -/
def Lasts (u : CodeUnit) (calls : List (Source × Arena)) : Prop :=
  ∀ region, .error (.outOfMemory region) ∉ u.answers calls

theorem after_append (calls more : List (Source × Arena)) :
    u.after (calls ++ more) = (u.after calls).after more := by
  induction calls generalizing u with
  | nil => rfl
  | cons call calls ih => exact ih

theorem answers_append (calls more : List (Source × Arena)) :
    u.answers (calls ++ more) = u.answers calls ++ (u.after calls).answers more := by
  induction calls generalizing u with
  | nil => rfl
  | cons call calls ih => exact congrArg _ ih

theorem lasts_append {calls more : List (Source × Arena)} :
    u.Lasts (calls ++ more) ↔ u.Lasts calls ∧ (u.after calls).Lasts more := by
  simp only [Lasts, answers_append, List.mem_append, not_or, forall_and]

theorem lasts_cons {calls : List (Source × Arena)} :
    u.Lasts ((source, arena) :: calls) ↔
      (∀ region, (u.compile source arena).result ≠ .error (.outOfMemory region)) ∧
        (u.compile source arena).unit.Lasts calls := by
  simp only [Lasts, answers, List.mem_cons, not_or, forall_and,
    ne_comm (a := Except.error _), ne_eq]

/-- One more tree leaves the code as it is or adds an entry point. -/
theorem compile_grows (known : JumpsKnown u.instructions)
    (lasts : ∀ region, (u.compile source arena).result ≠ .error (.outOfMemory region)) :
    JumpsKnown (u.compile source arena).unit.instructions ∧
      ∃ tail, (u.compile source arena).unit.instructions = u.instructions ++ tail := by
  cases h : (u.compile source arena).result with
  | ok start =>
    have added := adds_of_compile_eq_ok h
    refine ⟨added.jumpsKnown known, (u.entry source).toArray, ?_⟩
    apply Array.toList_inj.mp
    simpa using added.code
  | error e =>
    cases e with
    | outOfMemory region => exact absurd h (lasts region)
    | needsWalker =>
      have same := (leaves_of_compile_eq_error h).code
      exact ⟨same ▸ known, #[], by rw [same, Array.append_empty]⟩

theorem after_grows {calls : List (Source × Arena)} (known : JumpsKnown u.instructions)
    (lasts : u.Lasts calls) :
    JumpsKnown (u.after calls).instructions ∧
      ∃ tail, (u.after calls).instructions = u.instructions ++ tail := by
  induction calls generalizing u with
  | nil => exact ⟨known, #[], by rw [after, Array.append_empty]⟩
  | cons call calls ih =>
    obtain ⟨source, arena⟩ := call
    obtain ⟨now, later⟩ := lasts_cons.mp lasts
    obtain ⟨known', tail, grown⟩ := compile_grows known now
    obtain ⟨known'', tail', grown'⟩ := ih known' later
    refine ⟨known'', tail ++ tail', ?_⟩
    rw [after, grown', grown, Array.append_assoc]

/-- A new unit has no jumps. -/
theorem jumpsKnown_fresh (settings : Settings) :
    JumpsKnown ({ settings } : CodeUnit).instructions := by
  intro offset i found
  simp [instructions] at found

/-- As long as memory lasts, all jumps of a unit are known. -/
theorem jumpsKnown_after (settings : Settings) {calls : List (Source × Arena)}
    (lasts : ({ settings } : CodeUnit).Lasts calls) :
    JumpsKnown (({ settings } : CodeUnit).after calls).instructions :=
  (after_grows (jumpsKnown_fresh settings) lasts).1

/-- As long as memory lasts, all jumps in the code of a unit are known, and each entry point passes
    the stack check with the same report at every later time. -/
theorem check_after_compile (settings : Settings) (calls : List (Source × Arena))
    (lasts : ({ settings } : CodeUnit).Lasts calls) :
    jumps (({ settings } : CodeUnit).after calls).instructions = .ok () ∧
    ∀ before source arena later start, calls = before ++ (source, arena) :: later →
      ((({ settings } : CodeUnit).after before).compile source arena).result = .ok start →
      ∃ report, ∀ between, between <+: later →
        (({ settings } : CodeUnit).after (before ++ (source, arena) :: between)).check start =
          .ok report := by
  constructor
  · exact jumps_eq_ok.mpr (jumpsKnown_after settings lasts)
  rintro before source arena later start rfl accepted
  obtain ⟨lasts₁, lasts₂⟩ := lasts_append.mp lasts
  have known := jumpsKnown_after settings lasts₁
  have added := adds_of_compile_eq_ok accepted
  obtain ⟨report, checked⟩ := added.exists_check known
  refine ⟨report, ?_⟩
  rintro between ⟨rest, rfl⟩
  -- What is compiled afterwards only adds code behind the entry point.
  have lasts₃ := (lasts_cons.mp lasts₂).2
  obtain ⟨known', tail, grown⟩ := after_grows (added.jumpsKnown known) (lasts_append.mp lasts₃).1
  rw [after_append, after, check, grown]
  exact run_append_eq_ok checked (grown ▸ known')

/-- A loop, a statement that needs the tree walker, and an expression. -/
def mixedCalls : List (Source × Arena) :=
  [(.statements [.whileLoop (.name "a") (.expression (.name "b"))] true, {}),
    (.statements [.ifElse (.name "a") (.ret none) none] true, {}),
    (.expression (.logical .and (.name "a") (.name "b")), {})]

/-- The loop passes the check after the other trees have been compiled, one of them in vain. -/
theorem check_after_mixedCalls :
    let u : CodeUnit := { settings := { allowEscape := false, codeCapacity := 1 } }
    u.answers mixedCalls = [.ok 0, .error .needsWalker, .ok 7] ∧
      jumps (u.after mixedCalls).instructions = .ok () ∧
        ∃ report, (u.after mixedCalls).check 0 = .ok report := by
  intro u
  have answered : u.answers mixedCalls = [.ok 0, .error .needsWalker, .ok 7] := by decide +kernel
  have lasts : u.Lasts mixedCalls := by
    intro region
    simp [answered]
  obtain ⟨known, stays⟩ := check_after_compile u.settings mixedCalls lasts
  obtain ⟨report, checked⟩ := stays [] _ _ _ 0 rfl (by decide +kernel)
  exact ⟨answered, known, report, checked _ List.prefix_rfl⟩

end CodeUnit

end StackScript
