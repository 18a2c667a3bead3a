import StackScript.Proofs.Machine.Kinds
import StackScript.Proofs.StackCheck.Depths

/-!
# Runs of accepted code

The stack check counts slots, and never runs an instruction. Here its count is held against the
machine: along every run from an entry point that it accepts, the height of the stack is the depth
that it has taken down, so that control stays in the code and no instruction finds too few slots.
-/

namespace StackScript

open StackCheck Running

theorem suits_of_length {top : List Slot} {kinds : Shape} (h : top.length = kinds.length) :
    List.Forall₂ (Slot.Suits False) top kinds :=
  List.forall₂_iff_zip.mpr ⟨h, fun _ => False.elim⟩

namespace Instruction

variable {code : Array Instruction} {i : Instruction} {o : Nat} {top rest : List Slot} {r : Running}

theorem length_of_given (given : Step.Given i rest r.stack) (length : top.length = i.effect.pops) :
    r.stack.length = depthAfter (top ++ rest).length i := by
  obtain ⟨new, stack, kinds⟩ := given
  have pushed : new.length = i.effect.pushes := by
    rw [effect_eq, ← kinds, List.length_map]
  rw [depthAfter, stack, List.length_append, List.length_append, length, pushed]
  omega

/-- Where an instruction leads, an edge of the check leads. -/
theorem Leads.edge (leads : i.Leads o top rest r) (found : code[o]? = some i)
    (length : top.length = i.effect.pops) :
    Edge code ⟨o, (top ++ rest).length⟩ ⟨r.offset, r.stack.length⟩ := by
  have enough : i.effect.pops ≤ (top ++ rest).length := by
    rw [List.length_append, length]
    exact Nat.le_add_right _ _
  cases leads with
  | onward stays falls offset given =>
    rw [length_of_given given length, offset]
    exact .onward found enough stays falls
  | taken jumps target stack =>
    have given : Step.Given i rest r.stack := by
      refine ⟨[], stack, ?_⟩
      rcases jumps with hop | hop <;> simp [gives, hop]
    rw [length_of_given given length]
    exact .taken found enough jumps target
  | kept jumps target stack =>
    rw [stack]
    exact .kept found enough jumps target

end Instruction

namespace Running

variable {code : Runnable} {start : Nat} {report : StackReport}

/-- A step from a spot that can be reached leads to another, or stops without having lost track of
    the stack. -/
theorem next_reachable (known : JumpsKnown code.instructions)
    (sound : Sound code.instructions start)
    (r : Running) (reached : Reachable code.instructions start ⟨r.offset, r.stack.length⟩) :
    match Step.next code r with
    | .ok () r' => Reachable code.instructions start ⟨r'.offset, r'.stack.length⟩
    | .error stop _ => stop.Allowed False := by
  obtain ⟨m, stack, o⟩ := r
  have inside : o < code.instructions.size := sound.inside _ reached
  have found : code.instructions[o]? = some code.instructions[o] := Array.getElem?_eq_getElem inside
  generalize code.instructions[o] = i at found
  have enough : i.effect.pops ≤ stack.length := sound.enough _ i reached found
  have length : (stack.take i.effect.pops).length = i.effect.pops := List.length_take_of_le enough
  have target (jumps : i.op.isJump = true) : ∃ t, i.target? = some t := by
    obtain ⟨t, -, operand⟩ := known o i found jumps
    exact ⟨t, Instruction.target?_eq_some.mpr ⟨jumps, operand⟩⟩
  have balanced (hop : i.op = .ret) : stack.drop i.effect.pops = [] := by
    have depth : stack.length = 1 := sound.balanced _ i reached found hop
    have pops : i.effect.pops = 1 := by simp [Instruction.effect, hop]
    rw [pops, List.drop_eq_nil_iff, depth]
  have suits := suits_of_length (length.trans (congrArg StackEffect.pops i.effect_eq))
  have ends := Step.next_ends found suits False.elim target balanced m
  rw [List.take_append_drop] at ends
  cases h : Step.next code ⟨m, stack, o⟩ with
  | ok _ r' =>
    rw [h] at ends
    have edge := ends.edge found length
    rw [List.take_append_drop] at edge
    exact reached.tail edge
  | error stop r' =>
    rw [h] at ends
    exact ends

theorem depth_le_maxDepth (accepted : StackCheck.run code.instructions start = .ok report)
    {spot : Spot}
    (reached : Reachable code.instructions start spot) : spot.depth ≤ report.maxDepth := by
  have inside := (sound_of_run_eq_ok accepted).inside spot reached
  apply (describes_of_run_eq_ok accepted).bound
  exact ⟨spot, reached, _, Array.getElem?_eq_getElem inside, .inl rfl⟩

/-- Along every run from an accepted entry point control is inside of the code, and the height of
    the stack is the depth that the check has taken down for the offset. So no run loses track of
    the stack. -/
theorem run_of_accepted (accepted : StackCheck.run code.instructions start = .ok report) :
    ∃ recorded, Records code.instructions start recorded report ∧ ∀ m : Machine,
      (∀ k r, Steps code k { machine := m, offset := start } r →
        r.offset < code.instructions.size ∧ recorded[r.offset]? = some (some r.stack.length) ∧
          r.stack.length ≤ report.maxDepth) ∧
      ∀ budget f, (Running.run code budget { machine := m, offset := start }).stop = .fault f →
        f.isLost = false := by
  obtain ⟨recorded, records⟩ := exists_records accepted
  have known := (entry_of_run_eq_ok accepted).2
  have sound := sound_of_run_eq_ok accepted
  refine ⟨recorded, records, fun m => ?_⟩
  let entry : Running := { machine := m, offset := start }
  have entered : Reachable code.instructions start ⟨entry.offset, entry.stack.length⟩ := .refl
  obtain ⟨along, stops⟩ := run_keeps (next_reachable known sound) entered
  constructor
  · intro k r steps
    have reached := along k r steps
    exact ⟨sound.inside _ reached, (records.seen_iff _).mpr reached,
      depth_le_maxDepth accepted reached⟩
  · intro budget f stop
    have allowed := stops budget
    rw [stop] at allowed
    exact allowed.1

/-- An endless loop whose test is a choice. -/
def endless : Runnable where
  instructions := #[{ op := .pushUndefined }, { op := .pushTrue }, .jumpTo .jumpIfTrueOrPop 4,
    { op := .pushNull }, .jumpTo .jumpIfFalse 8, { op := .pop }, { op := .pushNull },
    .jumpTo .jump 1, { op := .ret }]
  names := none

/-- The loop never has more than two slots, however long it runs. -/
theorem run_of_accepted_endless :
    StackCheck.run endless.instructions 0 = .ok ⟨2, 9, 1⟩ ∧ ∀ m : Machine,
      (∀ k r, Steps endless k { machine := m, offset := 0 } r → r.stack.length ≤ 2) ∧
        ∀ f, (m.run endless 0).stop = .fault f → f.isLost = false := by
  have accepted : StackCheck.run endless.instructions 0 = .ok ⟨2, 9, 1⟩ := by cbv
  obtain ⟨recorded, -, within⟩ := run_of_accepted accepted
  refine ⟨accepted, fun m => ⟨?_, (within m).2 Machine.stepLimit⟩⟩
  intro k r steps
  exact ((within m).1 k r steps).2.2

end Running

end StackScript
