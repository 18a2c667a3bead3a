import Mathlib.Algebra.Order.Ring.Nat
import Mathlib.Order.Bounds.Basic
import StackScript.Code.Edit
import StackScript.Proofs.Compile.Growth

/-!
# Edited code

Code after any number of edits holds the instructions that were emitted and not taken back, in the
order in which they were emitted: the index that was answered when an instruction was emitted stays
right for as long as the instruction is there. Only the first operand of an instruction changes, and
it is the one that was written last. The capacity tells how long the code was when it was longest.
-/

namespace StackScript

/-! ## Emissions -/

/-- An instruction that was emitted, the index that was answered, and the edits that came
    afterwards. -/
structure Emission where
  instruction : Instruction
  index : Nat
  later : List Edit

/-- The edit does not take back an instruction at the index. -/
def Edit.spares (index : Nat) : Edit → Bool
  | .rewind length => index < length
  | .emit _ | .setOperand .. | .takeOperand _ => true

/-- What the edit writes in place of the first operand of an instruction at the index. -/
def Edit.write? (index : Nat) : Edit → Option (Option Operand)
  | .setOperand place operand => if place = index then some (some operand) else none
  | .takeOperand place => if place = index then some none else none
  | .emit _ | .rewind _ => none

namespace Emission

/-- The instruction has not been taken back. -/
def survives (m : Emission) : Bool :=
  m.later.all (Edit.spares m.index)

/-- The first operand that was written last, or else the one that was emitted. -/
def operand (m : Emission) : Option Operand :=
  (m.later.filterMap (Edit.write? m.index)).getLast?.getD m.instruction.operand

/-- The instruction as it is now. -/
def current (m : Emission) : Instruction :=
  { m.instruction with operand := m.operand }

/-- One more edit has come afterwards. -/
def followedBy (m : Emission) (e : Edit) : Emission :=
  { m with later := m.later ++ [e] }

variable (m : Emission) (e : Edit)

/-- An instruction that has survived is there if the next edit spares it. -/
theorem survives_followedBy : (m.followedBy e).survives = (m.survives && e.spares m.index) := by
  simp [survives, followedBy]

/-- Its operand is the one that was written last. -/
theorem operand_followedBy : (m.followedBy e).operand = (e.write? m.index).getD m.operand := by
  simp only [operand, followedBy, List.filterMap_append, List.getLast?_append]
  cases h : e.write? m.index <;> simp [h]

theorem current_followedBy :
    (m.followedBy e).current =
      { m.current with operand := (e.write? m.index).getD m.current.operand } := by
  rw [current, operand_followedBy]
  rfl

end Emission

/-- The emission that an edit and its answer tell of, when the given edits came afterwards. -/
def emission? (later : List Edit) : Edit × Edit.Answer → Option Emission
  | (.emit i, .emitted index) => some ⟨i, index, later⟩
  | _ => none

/-- All emissions among edits and their answers, oldest first. -/
def emissions : List (Edit × Edit.Answer) → List Emission
  | [] => []
  | step :: later => (emission? (later.map Prod.fst) step).toList ++ emissions later

/-- The emissions whose instructions have not been taken back. -/
def survivors (log : List (Edit × Edit.Answer)) : List Emission :=
  (emissions log).filter Emission.survives

/-- What happens later happens to each emission. -/
theorem emission?_concat (later : List Edit) (e : Edit) (step : Edit × Edit.Answer) :
    emission? (later ++ [e]) step = (emission? later step).map (·.followedBy e) := by
  obtain ⟨edit, answer⟩ := step
  cases edit <;> cases answer <;> rfl

/-- An instruction that was only just emitted has not been taken back. -/
theorem survives_of_emission? {step : Edit × Edit.Answer} {m : Emission}
    (h : emission? [] step = some m) :
    m.survives = true := by
  obtain ⟨edit, answer⟩ := step
  cases edit <;> cases answer <;> cases h
  rfl

/-- One more step adds an emission at most, and happens to the others. -/
theorem emissions_concat (log : List (Edit × Edit.Answer)) (step : Edit × Edit.Answer) :
    emissions (log ++ [step]) =
      (emissions log).map (·.followedBy step.1) ++ (emission? [] step).toList := by
  induction log with
  | nil => exact List.append_nil _
  | cons first log ih =>
    simp only [List.cons_append, emissions, List.map_append, ih, List.map_cons, List.map_nil,
      emission?_concat, Option.toList_map, List.append_assoc]

/-- One more step adds a survivor at most, and takes away those that it does not spare. -/
theorem survivors_concat (log : List (Edit × Edit.Answer)) (step : Edit × Edit.Answer) :
    survivors (log ++ [step]) =
      ((survivors log).filter fun m => step.1.spares m.index).map (·.followedBy step.1) ++
        (emission? [] step).toList := by
  have fresh : (emission? [] step).toList.filter Emission.survives =
      (emission? [] step).toList := by
    rw [List.filter_eq_self]
    intro m h
    exact survives_of_emission? (Option.mem_toList.mp h)
  rw [survivors, emissions_concat, List.filter_append, fresh, List.filter_map, survivors,
    List.filter_filter]
  congr 3
  funext m
  rw [Function.comp_apply, Emission.survives_followedBy, Bool.and_comm]

namespace Code

/-- The code after edits, one after the other. -/
def after (c : Code) : List Edit → Code
  | [] => c
  | e :: edits => (c.edit e).2.after edits

/-- Edits, one after the other, with their answers. -/
def log (c : Code) : List Edit → List (Edit × Edit.Answer)
  | [] => []
  | e :: edits => (e, (c.edit e).1) :: (c.edit e).2.log edits

/-! ## One edit -/

variable {c : Code} {e : Edit} {i : Instruction} {past : List (Edit × Edit.Answer)}

/-- An instruction for which there is room gets the next index. -/
theorem edit_emit_of_room (room : c.hasRoom = true) :
    c.edit (.emit i) = (.emitted c.length, c.push i) := by
  simp [edit, emit, room]

/-- An instruction for which there is no room changes nothing. -/
theorem edit_emit_of_no_room (room : c.hasRoom = false) :
    c.edit (.emit i) = (.outOfMemory .instructions, c) := by
  simp [edit, emit, room]

/-- There is no operand behind the end. -/
theorem operandAt?_eq_none {index : Nat} : c.operandAt? index = none ↔ c.length ≤ index := by
  simp [operandAt?, length]

/-- Nothing is written past the end. -/
theorem setOperand_of_le {index : Nat} (outside : c.length ≤ index) (operand : Option Operand) :
    c.setOperand index operand = c := by
  have same : c.instructions.modify index (fun i => { i with operand := operand }) =
      c.instructions := by
    apply Array.ext_getElem?
    intro k
    rw [Array.getElem?_modify]
    split
    · rename_i here
      rw [Array.getElem?_eq_none (here ▸ outside), Option.map_none]
    · rfl
  rw [setOperand, same]

/-- What stands in the way of an edit. -/
def Obstacle (c : Code) : Edit → Prop
  | .emit _ =>
    (∃ most, c.limit = some most ∧ most ≤ c.length) ∨ c.length = c.capacity ∧
      entryBound ≤ 2 * c.capacity
  | .setOperand index _ | .takeOperand index => c.length ≤ index
  | .rewind _ => False

/-- The reasons for which an instruction is refused. -/
theorem hasRoom_eq_false_iff : c.hasRoom = false ↔ c.Obstacle (.emit i) := by
  rw [← Bool.not_eq_true, hasRoom_iff, isAtLimit_eq_false, not_and_or]
  simp only [Obstacle, CanGrow, not_forall, Nat.not_lt, exists_prop]

/-- An edit of an instruction is refused if and only if there is no such instruction. -/
theorem isRefusal_elim {index : Nat} {answer : Option Operand → Edit.Answer}
    (done : ∀ operand, (answer operand).isRefusal = false) :
    ((c.operandAt? index).elim .absent answer).isRefusal = true ↔ c.length ≤ index := by
  rw [← operandAt?_eq_none]
  cases c.operandAt? index with
  | none => simp [Edit.Answer.isRefusal]
  | some operand => simp [done]

/-- An edit is refused exactly if something stands in its way. -/
theorem isRefusal_edit_iff : (c.edit e).1.isRefusal = true ↔ c.Obstacle e := by
  cases e with
  | emit i =>
    rw [← hasRoom_eq_false_iff]
    cases room : c.hasRoom with
    | true => simp [edit_emit_of_room room, Edit.Answer.isRefusal]
    | false => simp [edit_emit_of_no_room room, Edit.Answer.isRefusal]
  | setOperand index operand => exact isRefusal_elim fun _ => rfl
  | takeOperand index => exact isRefusal_elim fun _ => rfl
  | rewind length => simp [edit, Edit.Answer.isRefusal, Obstacle]

/-- An edit that is refused leaves the code as it is. -/
theorem edit_of_obstacle (h : c.Obstacle e) : (c.edit e).2 = c := by
  cases e with
  | emit i => rw [edit_emit_of_no_room (hasRoom_eq_false_iff.mpr h)]
  | setOperand index operand => exact setOperand_of_le h _
  | takeOperand index => exact setOperand_of_le h _
  | rewind length => exact h.elim

/-! ## Which instructions there are -/

/-- The code holds what is left of the emissions, and each is at the index that was answered. -/
structure Records (c : Code) (past : List (Edit × Edit.Answer)) : Prop where
  instructions : c.instructions.toList = (survivors past).map Emission.current
  indices : (survivors past).map Emission.index = List.range c.length

/-- Edits other than writes leave the instructions that stay as they were. -/
theorem map_current_followedBy (ms : List Emission) (silent : ∀ index, e.write? index = none) :
    (ms.map (·.followedBy e)).map Emission.current = ms.map Emission.current := by
  rw [List.map_map]
  refine List.map_congr_left fun m _ => ?_
  rw [Function.comp_apply, Emission.current_followedBy, silent]
  rfl

theorem map_index_followedBy (ms : List Emission) :
    (ms.map (·.followedBy e)).map Emission.index = ms.map Emission.index := by
  rw [List.map_map]
  rfl

/-- The survivors are in the order of their indices, without gaps. -/
theorem Records.index_eq (h : c.Records past) {k : Nat} {m : Emission}
    (found : (survivors past)[k]? = some m) :
    m.index = k := by
  have mapped : ((survivors past).map Emission.index)[k]? = some m.index := by
    rw [List.getElem?_map, found, Option.map_some]
  rw [h.indices, List.getElem?_eq_some_iff] at mapped
  obtain ⟨_, same⟩ := mapped
  rw [← same, List.getElem_range]

/-- When code is taken back, the oldest instructions stay. -/
theorem Records.filter_eq_take (h : c.Records past) (n : Nat) :
    ((survivors past).filter fun m => m.index < n) = (survivors past).take n := by
  have old : ((survivors past).take n).filter (fun m => m.index < n) = (survivors past).take n := by
    rw [List.filter_eq_self]
    intro m hm
    obtain ⟨k, inside, found⟩ := List.mem_take_iff_getElem.mp hm
    rw [h.index_eq (List.getElem?_eq_some_iff.mpr ⟨by omega, found⟩), decide_eq_true_eq]
    omega
  have new : ((survivors past).drop n).filter (fun m => m.index < n) = [] := by
    rw [List.filter_eq_nil_iff]
    intro m hm
    obtain ⟨k, inside, found⟩ := List.mem_drop_iff_getElem.mp hm
    rw [h.index_eq (List.getElem?_eq_some_iff.mpr ⟨_, found⟩), decide_eq_true_eq]
    omega
  rw [← List.take_append_drop n (survivors past), List.filter_append,
    List.take_append_drop, old, new, List.append_nil]

/-- An edit that takes nothing back and emits nothing. -/
theorem survivors_of_patch {answer : Edit.Answer} (spares : ∀ index, e.spares index = true)
    (silent : emission? [] (e, answer) = none) :
    survivors (past ++ [(e, answer)]) = (survivors past).map (·.followedBy e) := by
  rw [survivors_concat, silent, Option.toList_none, List.append_nil]
  simp [spares]

/-- A write changes the one instruction that was emitted at the index. -/
theorem Records.patch (h : c.Records past) {answer : Edit.Answer} {index : Nat}
    {operand : Option Operand}
    (spares : ∀ index, e.spares index = true) (silent : emission? [] (e, answer) = none)
    (writes : ∀ k, e.write? k = if index = k then some operand else none) :
    (c.setOperand index operand).Records (past ++ [(e, answer)]) where
  instructions := by
    rw [survivors_of_patch spares silent]
    apply List.ext_getElem?
    intro k
    rw [setOperand, Array.toList_modify, List.getElem?_modify, h.instructions]
    simp only [List.getElem?_map, Option.map_map]
    cases found : (survivors past)[k]? with
    | none => rfl
    | some m =>
      -- The survivor at `k` was told the index `k`, so that exactly the writes to `k` are its own.
      rw [Option.map_some, Option.map_some, Function.comp_apply, Emission.current_followedBy,
        h.index_eq found, writes]
      split <;> rfl
  indices := by
    rw [survivors_of_patch spares silent, map_index_followedBy, length_setOperand]
    exact h.indices

/-- A refused instruction is recorded as no emission. -/
theorem Records.refuse (h : c.Records past) (region : Region) :
    c.Records (past ++ [(.emit i, .outOfMemory region)]) where
  instructions := by
    rw [survivors_of_patch (fun _ => rfl) rfl, map_current_followedBy _ fun _ => rfl]
    exact h.instructions
  indices := by
    rw [survivors_of_patch (fun _ => rfl) rfl, map_index_followedBy]
    exact h.indices

theorem survivors_of_emit (past : List (Edit × Edit.Answer)) (index : Nat) :
    survivors (past ++ [(.emit i, .emitted index)]) =
      (survivors past).map (·.followedBy (.emit i)) ++ [⟨i, index, []⟩] := by
  rw [survivors_concat]
  simp [Edit.spares, emission?]

/-- An instruction is recorded when it is written. -/
theorem Records.push (h : c.Records past) (i : Instruction) :
    (c.push i).Records (past ++ [(.emit i, .emitted c.length)]) where
  instructions := by
    rw [survivors_of_emit, List.map_append, map_current_followedBy _ fun _ => rfl, ← h.instructions]
    exact Array.toList_push
  indices := by
    rw [survivors_of_emit, List.map_append, map_index_followedBy, h.indices, length_push,
      List.range_succ]
    rfl

/-- Those that are taken back do not survive. -/
theorem Records.rewind (h : c.Records past) (n : Nat) :
    (c.rewind n).Records (past ++ [(.rewind n, .rewound)]) := by
  have kept : survivors (past ++ [(.rewind n, .rewound)]) =
      ((survivors past).take n).map (·.followedBy (.rewind n)) := by
    rw [survivors_concat, ← h.filter_eq_take]
    exact List.append_nil _
  exact {
    instructions := by
      rw [kept, map_current_followedBy _ fun _ => rfl, toList_rewind, h.instructions, List.map_take]
    indices := by
      rw [kept, map_index_followedBy, List.map_take, h.indices, List.take_range, length_rewind] }

/-- The log goes on with each edit. -/
theorem Records.edit (h : c.Records past) (e : Edit) :
    (c.edit e).2.Records (past ++ [(e, (c.edit e).1)]) := by
  cases e with
  | emit i =>
    cases room : c.hasRoom with
    | true =>
      rw [edit_emit_of_room room]
      exact h.push i
    | false =>
      rw [edit_emit_of_no_room room]
      exact h.refuse _
  | setOperand index operand => exact h.patch (fun _ => rfl) rfl fun _ => rfl
  | takeOperand index => exact h.patch (fun _ => rfl) rfl fun _ => rfl
  | rewind n => exact h.rewind n

/-- The record is right after any edits. -/
theorem Records.after (h : c.Records past) (edits : List Edit) :
    (c.after edits).Records (past ++ c.log edits) := by
  induction edits generalizing c past with
  | nil => rwa [Code.log, List.append_nil]
  | cons e edits ih =>
    have rest := ih (h.edit e)
    rwa [List.append_assoc] at rest

/-! ## How much room there is -/

/-- The greatest length that the code has on the way. -/
def peak (c : Code) : List Edit → Nat
  | [] => c.length
  | e :: edits => max c.length ((c.edit e).2.peak edits)

theorem length_le_peak (c : Code) (edits : List Edit) : c.length ≤ c.peak edits := by
  cases edits with
  | nil => exact Nat.le_refl _
  | cons e edits => exact Nat.le_max_left _ _

/-- The peak is the greatest length on the way. -/
theorem isGreatest_peak (c : Code) (edits : List Edit) :
    IsGreatest {n | ∃ before, before <+: edits ∧ n = (c.after before).length} (c.peak edits) := by
  induction edits generalizing c with
  | nil =>
    refine ⟨⟨[], List.prefix_rfl, rfl⟩, ?_⟩
    rintro n ⟨before, isPrefix, rfl⟩
    rw [List.prefix_nil.mp isPrefix]
    exact Nat.le_refl _
  | cons e edits ih =>
    obtain ⟨⟨last, isLast, attained⟩, bound⟩ := ih (c.edit e).2
    constructor
    · by_cases shorter : c.length ≤ (c.edit e).2.peak edits
      · exact ⟨e :: last, List.cons_prefix_cons.mpr ⟨rfl, isLast⟩,
          (Nat.max_eq_right shorter).trans attained⟩
      · exact ⟨[], List.nil_prefix, Nat.max_eq_left (by omega)⟩
    · rintro n ⟨before, isPrefix, rfl⟩
      cases before with
      | nil => exact Nat.le_max_left _ _
      | cons first before =>
        obtain ⟨rfl, rest⟩ := List.cons_prefix_cons.mp isPrefix
        exact Nat.le_trans (bound ⟨before, rest, rfl⟩) (Nat.le_max_right _ _)

/-- The capacity is the first among the doublings of a base that is not less than the greatest
    length. -/
def Grown (base peak capacity : Nat) : Prop :=
  ∃ k, IsLeast {k | peak ≤ base * 2 ^ k} k ∧ capacity = base * 2 ^ k

section Grown

variable {base peak peak' capacity : Nat}

/-- The greatest length fitted. -/
theorem Grown.le (h : Grown base peak capacity) : peak ≤ capacity := by
  obtain ⟨k, least, rfl⟩ := h
  exact least.1

/-- A greater length that still fits. -/
theorem Grown.stay (h : Grown base peak capacity) (longer : peak ≤ peak')
    (fits : peak' ≤ capacity) :
    Grown base peak' capacity := by
  obtain ⟨k, least, rfl⟩ := h
  exact ⟨k, ⟨fits, fun j enough => least.2 (Nat.le_trans longer enough)⟩, rfl⟩

/-- A length that does not fit any more. -/
theorem Grown.double (h : Grown base peak capacity) (positive : 0 < capacity) :
    Grown base (capacity + 1) (2 * capacity) := by
  obtain ⟨k, -, rfl⟩ := h
  have twice : base * 2 ^ (k + 1) = 2 * (base * 2 ^ k) := by
    rw [pow_succ, ← Nat.mul_assoc, Nat.mul_comm]
  refine ⟨k + 1, ⟨?_, ?_⟩, twice.symm⟩
  · rw [Set.mem_ofPred_eq, twice]
    omega
  · intro j enough
    by_contra early
    have : base * 2 ^ j ≤ base * 2 ^ k :=
      Nat.mul_le_mul_left base (Nat.pow_le_pow_right Nat.two_pos (by omega))
    have : base * 2 ^ k + 1 ≤ base * 2 ^ j := enough
    omega

end Grown

/-- An edit leaves the limit as it is. It makes the code no longer and leaves the capacity as it is,
    or it adds one instruction within the limit. -/
theorem edit_cases (c : Code) (e : Edit) :
    (c.edit e).2.limit = c.limit ∧
      ((c.edit e).2.length ≤ c.length ∧ (c.edit e).2.capacity = c.capacity ∨
        c.isAtLimit = false ∧ (c.edit e).2.length = c.length + 1 ∧
          (c.edit e).2.capacity = capacityAfter c.length c.capacity) := by
  cases e with
  | emit i =>
    cases room : c.hasRoom with
    | true =>
      rw [edit_emit_of_room room]
      exact ⟨rfl, .inr ⟨((hasRoom_iff c).mp room).1, length_push c i, rfl⟩⟩
    | false =>
      rw [edit_emit_of_no_room room]
      exact ⟨rfl, .inl ⟨Nat.le_refl _, rfl⟩⟩
  | setOperand index operand => exact ⟨rfl, .inl ⟨(length_setOperand c index _).le, rfl⟩⟩
  | takeOperand index => exact ⟨rfl, .inl ⟨(length_setOperand c index _).le, rfl⟩⟩
  | rewind n =>
    refine ⟨rfl, .inl ⟨?_, rfl⟩⟩
    rw [edit, length_rewind]
    exact Nat.min_le_right _ _

/-- The code is within its limit, and its capacity is right for the greatest length so far. -/
structure Measured (base : Nat) (limit : Option Nat) (peak : Nat) (c : Code) : Prop where
  limit_eq : c.limit = limit
  within : ∀ most, limit = some most → c.length ≤ most
  below : c.length ≤ peak
  positive : 0 < c.capacity
  grown : Grown base peak c.capacity

section Measured

variable {base peak : Nat} {limit : Option Nat}

/-- One edit doubles the capacity at most, and only if the code has never been as long. -/
theorem Measured.edit (h : Measured base limit peak c) (e : Edit) :
    Measured base limit (max peak (c.edit e).2.length) (c.edit e).2 := by
  have below := h.below
  have fits := h.grown.le
  obtain ⟨same, ⟨shorter, capacity⟩ | ⟨free, longer, capacity⟩⟩ := c.edit_cases e
  · exact {
      limit_eq := same.trans h.limit_eq
      within := fun most limited => Nat.le_trans shorter (h.within most limited)
      below := Nat.le_max_right _ _
      positive := capacity ▸ h.positive
      grown := by
        rw [capacity, Nat.max_eq_left (by omega)]
        exact h.grown }
  · exact {
      limit_eq := same.trans h.limit_eq
      within := fun most limited =>
        longer ▸ (isAtLimit_eq_false c).mp free most (h.limit_eq.trans limited)
      below := Nat.le_max_right _ _
      positive := by
        rw [capacity]
        exact Nat.lt_of_lt_of_le h.positive (doubled_capacityAfter _ _).le
      grown := by
        rw [capacity, longer]
        by_cases full : c.length = c.capacity
        · -- The code was never longer than now, since its length is the capacity.
          rw [capacityAfter_of_eq full, Nat.max_eq_right (by omega), full]
          exact h.grown.double h.positive
        · rw [capacityAfter_of_ne full]
          exact h.grown.stay (Nat.le_max_left _ _) (by omega) }

/-- The measures hold after any edits. -/
theorem Measured.after (h : Measured base limit peak c) (edits : List Edit) :
    Measured base limit (max peak (c.peak edits)) (c.after edits) := by
  induction edits generalizing c peak with
  | nil =>
    rw [Code.peak, Nat.max_eq_left h.below]
    exact h
  | cons e edits ih =>
    have rest := ih (h.edit e)
    have below := h.below
    have later := length_le_peak (c.edit e).2 edits
    have same : max peak (c.peak (e :: edits)) =
        max (max peak (c.edit e).2.length) ((c.edit e).2.peak edits) := by
      rw [Code.peak]
      omega
    rw [same]
    exact rest

end Measured

theorem after_append (c : Code) (edits more : List Edit) :
    c.after (edits ++ more) = (c.after edits).after more := by
  induction edits generalizing c with
  | nil => rfl
  | cons e edits ih => exact ih (c.edit e).2

/-- No edit gives room back. -/
theorem capacity_le_after (c : Code) (edits : List Edit) :
    c.capacity ≤ (c.after edits).capacity := by
  induction edits generalizing c with
  | nil => exact Nat.le_refl _
  | cons e edits ih =>
    refine Nat.le_trans ?_ (ih (c.edit e).2)
    obtain ⟨-, ⟨-, capacity⟩ | ⟨-, -, capacity⟩⟩ := c.edit_cases e
    · exact capacity.ge
    · rw [capacity]
      exact (doubled_capacityAfter _ _).le

/-! ## New code -/

section Create

variable {capacity : Nat} {limit : Option Nat}

/-- Nothing has been emitted into new code. -/
theorem records_of_create (created : create capacity limit = .ok c) : c.Records [] := by
  rw [(create_eq_ok.mp created).2]
  exact ⟨rfl, rfl⟩

/-- New code has room for what was asked for, and for one instruction at least. -/
theorem measured_of_create (created : create capacity limit = .ok c) :
    Measured (max capacity 1) limit c.length c := by
  rw [(create_eq_ok.mp created).2]
  exact {
    limit_eq := rfl
    within := fun _ _ => Nat.zero_le _
    below := Nat.le_refl _
    positive := Nat.le_max_right _ _
    grown := ⟨0, ⟨Nat.zero_le _, fun _ _ => Nat.zero_le _⟩, by rw [pow_zero, Nat.mul_one]⟩ }

/-- What holds of new code after any edits. It consists of the instructions that were emitted and
    not taken back, in this order, each at the index that was answered and with the operand that was
    written last. It keeps to its limit. An edit is refused only for want of room or because it
    names no instruction, and then the code stays as it is. The capacity is the first doubling of
    the initial one that is enough for the greatest length so far, so that it never shrinks. -/
theorem edited_after_create (created : create capacity limit = .ok c) (edits : List Edit) :
    let d := c.after edits
    (d.instructions.toList = (survivors (c.log edits)).map Emission.current ∧
      (survivors (c.log edits)).map Emission.index = List.range d.length) ∧
    (d.limit = limit ∧ ∀ most, limit = some most → d.length ≤ most) ∧
    (∀ e, ((d.edit e).1.isRefusal = true ↔ d.Obstacle e) ∧
      ((d.edit e).1.isRefusal = true → (d.edit e).2 = d)) ∧
    (∃ peak k, IsGreatest {n | ∃ before, before <+: edits ∧ n = (c.after before).length} peak ∧
      IsLeast {k | peak ≤ max capacity 1 * 2 ^ k} k ∧ d.capacity = max capacity 1 * 2 ^ k) ∧
    ∀ before, before <+: edits → (c.after before).capacity ≤ d.capacity := by
  intro d
  have records := (records_of_create created).after edits
  have measured := (measured_of_create created).after edits
  rw [Nat.max_eq_right (length_le_peak c edits)] at measured
  refine ⟨⟨records.instructions, records.indices⟩, ⟨measured.limit_eq, measured.within⟩, ?_, ?_, ?_⟩
  · intro e
    exact ⟨isRefusal_edit_iff, fun refused => edit_of_obstacle (isRefusal_edit_iff.mp refused)⟩
  · obtain ⟨k, least, same⟩ := measured.grown
    exact ⟨c.peak edits, k, isGreatest_peak c edits, least, same⟩
  · rintro before ⟨rest, rfl⟩
    rw [show d = (c.after before).after rest from after_append c before rest]
    exact capacity_le_after _ rest

/-- New code for at most three instructions. -/
def roomForThree : Code :=
  ⟨#[], 1, some 3⟩

/-- Edits for which there is no room or no instruction, and instructions that are patched or taken
    back. -/
def patching : List Edit :=
  [.emit { op := .jump, operand := some .pending },
    .emit { op := .newArray, operand := some (.count 2) }, .emit { op := .pop },
    .emit { op := .ret }, .setOperand 0 (.jump 2), .setOperand 3 (.jump 0), .takeOperand 0,
    .setOperand 0 (.jump 1), .rewind 1,
    .emit { op := .callRef, operand := some (.count 1), extra := some (.count 2) }, .takeOperand 1]

/-- Of three instructions the first is left, and a new one stands behind it; there is still room for
    four. -/
theorem edited_after_create_patching :
    create 1 (some 3) = .ok roomForThree ∧
      (roomForThree.after patching).instructions.toList =
        [{ op := .jump, operand := some (.jump 1) }, { op := .callRef, extra := some (.count 2) }] ∧
      (roomForThree.after patching).length ≤ 3 ∧
      ∃ k, IsLeast {k | 3 ≤ max 1 1 * 2 ^ k} k ∧
        (roomForThree.after patching).capacity = max 1 1 * 2 ^ k := by
  have created : create 1 (some 3) = .ok roomForThree := rfl
  have left : (survivors (roomForThree.log patching)).map Emission.current =
      [{ op := .jump, operand := some (.jump 1) }, { op := .callRef, extra := some (.count 2) }] :=
        rfl
  have longest : roomForThree.peak patching = 3 := rfl
  obtain ⟨⟨instructions, -⟩, ⟨-, within⟩, -, ⟨peak, k, greatest, least, capacity⟩, -⟩ :=
    edited_after_create created patching
  rw [greatest.unique (isGreatest_peak roomForThree patching), longest] at least
  exact ⟨created, instructions.trans left, within 3 rfl, k, least, capacity⟩

end Create

end Code

end StackScript
