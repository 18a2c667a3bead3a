import StackScript.Proofs.Segment.Correspond
import StackScript.Proofs.Segment.Operands
import StackScript.Proofs.StackCheck.Reachable

/-!
# Where control goes

Control flows from an instruction to the next or along a jump. It enters a segment at its first
instruction and cannot leave it but at the end. A segment that is not repeated for ever can be left,
and one in which nothing is repeated for ever has no instruction that cannot be reached.
-/

namespace StackScript

/-- Control can go from one offset to another, whatever is on the stack. -/
inductive Flows (code : Array Instruction) : Nat → Nat → Prop
  | onward {o : Nat} {i : Instruction} (found : code[o]? = some i) (stays : i.op ≠ .ret)
      (falls : i.op ≠ .jump) :
      Flows code o (o + 1)
  | jump {o t : Nat} {i : Instruction} (found : code[o]? = some i) (target : i.target? = some t) :
      Flows code o t

/-- Control can get from one offset to another. -/
abbrev Reaches (code : Array Instruction) : Nat → Nat → Prop :=
  Relation.ReflTransGen (Flows code)

/-- The elements of a list that stands in an array. -/
theorem Stands.getElem?_add {α : Type} {xs : Array α} {o : Nat} {a : List α}
    (h : Stands xs o a) {k : Nat}
    (inside : k < a.length) : xs[o + k]? = a[k]? := by
  induction a generalizing o k with
  | nil => cases inside
  | cons x a ih =>
    obtain ⟨here, rest⟩ := h
    cases k with
    | zero => exact here
    | succ k =>
      rw [List.getElem?_cons_succ, ← ih rest (Nat.lt_of_succ_lt_succ inside), Nat.add_assoc,
        Nat.add_comm 1 k]

/-- What is added behind an array changes nothing before. -/
theorem Stands.mono {α : Type} {xs ys : Array α}
    (more : ∀ (o : Nat) x, xs[o]? = some x → ys[o]? = some x) {o : Nat}
    {a : List α} (h : Stands xs o a) : Stands ys o a := by
  induction a generalizing o with
  | nil => trivial
  | cons x a ih => exact ⟨more o x h.1, ih h.2⟩

namespace StackCheck

variable {code : Array Instruction} {start : Nat}

/-- What the stack check follows is the flow of control. -/
theorem Edge.flows {spot dest : Spot} (edge : Edge code spot dest) :
    Flows code spot.offset dest.offset := by
  cases edge with
  | onward found _ stays falls => exact .onward found stays falls
  | taken found _ _ target => exact .jump found target
  | kept found _ _ target => exact .jump found target

/-- In sound code the stack never keeps control from going on. -/
theorem Sound.exists_edge (sound : Sound code start) {spot : Spot}
    (reached : Reachable code start spot) {o : Nat}
    (flows : Flows code spot.offset o) : ∃ depth, Edge code spot ⟨o, depth⟩ := by
  cases flows with
  | onward found stays falls =>
    exact ⟨_, .onward found (sound.enough spot _ reached found) stays falls⟩
  | jump found target =>
    have enough := sound.enough spot _ reached found
    rcases Op.isJump_cases (Instruction.target?_eq_some.mp target).1 with jumps | jumps
    · exact ⟨_, .taken found enough jumps target⟩
    · exact ⟨_, .kept found enough jumps target⟩

/-- The offsets that the check gets to are those that control can get to. -/
theorem Sound.mem_offsets_iff (sound : Sound code start) {o : Nat} :
    o ∈ Spot.offset '' {spot | Reachable code start spot} ↔ Reaches code start o := by
  constructor
  · intro mem
    obtain ⟨spot, reached, rfl⟩ := mem
    induction reached with
    | refl => exact .refl
    | tail _ edge ih => exact ih.tail edge.flows
  · intro reaches
    induction reaches with
    | refl => exact ⟨⟨start, 0⟩, .refl, rfl⟩
    | tail _ flows ih =>
      obtain ⟨spot, reached, rfl⟩ := ih
      obtain ⟨depth, edge⟩ := sound.exists_edge reached flows
      exact ⟨_, reached.tail edge, rfl⟩

end StackCheck

namespace Segment

variable {code : Array Instruction} {o n : Nat}

/-- The jumps of a segment stay inside of it, or lead to its end. -/
theorem target_of_mem_place (s : Segment) {i : Instruction} (mem : i ∈ s.place o n) {t : Nat}
    (target : i.target? = some t) : o ≤ t ∧ t ≤ o + s.size := by
  let own (a _ : Operand) : Prop := ∀ t, a = .jump t → o ≤ t ∧ t ≤ o + s.size
  have related : s.Relates own o n o n := by
    refine ⟨?_, ?_, ?_⟩
    · exact fun a _ still t jump => absurd jump (still t)
    · intro k text _ t jump
      cases jump
    · intro k le t jump
      cases jump
      omega
  have each := (List.forall₂_same.mp (s.place_corresponds related) i mem).operand
  rw [(Instruction.target?_eq_some.mp target).2] at each
  cases each with
  | some own => exact own t rfl

/-- A jump in a segment leads into it or to its end. -/
theorem target_within (s : Segment) (stands : Stands code o (s.place o n)) {p : Nat} (above : o ≤ p)
    (below : p < o + s.size) {i : Instruction} (found : code[p]? = some i) {t : Nat}
    (target : i.target? = some t) :
    o ≤ t ∧ t ≤ o + s.size := by
  obtain ⟨k, rfl⟩ := Nat.exists_eq_add_of_le above
  have inside : k < (s.place o n).length := by
    rw [length_place]
    omega
  rw [stands.getElem?_add inside] at found
  exact s.target_of_mem_place (List.mem_of_getElem? found) target

/-- Control leaves a segment only at its end. -/
theorem flows_within (s : Segment) (stands : Stands code o (s.place o n)) {p q : Nat}
    (above : o ≤ p)
    (below : p < o + s.size) (flows : Flows code p q) : o ≤ q ∧ q ≤ o + s.size := by
  cases flows with
  | onward _ _ _ => omega
  | jump found target => exact s.target_within stands above below found target

/-- Control can get from the first instruction to the end. -/
def completes : Segment → Bool
  | .plain .. | .named .. | .unused _ | .skip .. => true
  | .seq first second => first.completes && second.completes
  | .branch _ consequent alternate => consequent.completes || alternate.completes
  | .cycle test _ => test.completes
  | .forever _ => false

/-- Whatever is repeated is repeated only as long as a test says so. -/
def isTested : Segment → Bool
  | .plain .. | .named .. | .unused _ => true
  | .seq first second => first.isTested && second.isTested
  | .skip _ body => body.isTested
  | .branch _ consequent alternate => consequent.isTested && alternate.isTested
  | .cycle test body => test.isTested && body.isTested
  | .forever _ => false

theorem isTested_of_isStraight {s : Segment} (h : s.isStraight = true) : s.isTested = true := by
  induction s with
  | plain => rfl
  | named => rfl
  | unused => rfl
  | seq first second ih₁ ih₂ =>
    rw [isStraight, Bool.and_eq_true] at h
    rw [isTested, ih₁ h.1, ih₂ h.2, Bool.and_true]
  | skip operator body ih => exact ih h
  | branch keeps consequent alternate ih₁ ih₂ =>
    rw [isStraight, Bool.and_eq_true] at h
    rw [isTested, ih₁ h.1, ih₂ h.2, Bool.and_true]
  | cycle => cases h
  | forever => cases h

/-- A segment in which each loop has a test can complete. -/
theorem completes_of_isTested {s : Segment} (h : s.isTested = true) : s.completes = true := by
  induction s with
  | plain => rfl
  | named => rfl
  | unused => rfl
  | skip => rfl
  | seq first second ih₁ ih₂ =>
    rw [isTested, Bool.and_eq_true] at h
    rw [completes, ih₁ h.1, ih₂ h.2, Bool.and_true]
  | branch keeps consequent alternate ih₁ _ =>
    rw [isTested, Bool.and_eq_true] at h
    rw [completes, ih₁ h.1, Bool.true_or]
  | cycle test body ih₁ _ =>
    rw [isTested, Bool.and_eq_true] at h
    exact ih₁ h.1
  | forever => cases h

section Flow

theorem ne_jump_of_goesOn {op : Op} (goesOn : op.goesOn = true) : op ≠ .jump := by
  intro jumps
  cases jumps
  cases goesOn

/-- Control goes on behind an instruction that is no jump. -/
theorem flows_onward {i : Instruction} (found : code[o]? = some i) (goesOn : i.op.goesOn = true) :
    Flows code o (o + 1) := by
  refine .onward found ?_ (ne_jump_of_goesOn goesOn)
  intro returns
  rw [returns] at goesOn
  cases goesOn

/-- Control goes to the target of a jump. -/
theorem flows_jumpTo {op : Op} (jumps : op.isJump = true) {t : Nat}
    (found : code[o]? = some (.jumpTo op t)) :
    Flows code o t :=
  .jump found (Instruction.target?_eq_some.mpr ⟨jumps, rfl⟩)

/-- A jump that depends on a value may not be taken. -/
theorem flows_behind {op : Op} (jumps : op.isJump = true) (tests : op ≠ .jump) {t : Nat}
    (found : code[o]? = some (.jumpTo op t)) : Flows code o (o + 1) := by
  refine .onward found ?_ tests
  intro returns
  cases returns
  cases jumps

theorem reaches_single (flows : Flows code o (o + 1)) {p : Nat} (above : o ≤ p)
    (below : p ≤ o + 1) :
    Reaches code o p := by
  by_cases first : p = o
  · exact first ▸ .refl
  · obtain rfl : p = o + 1 := by omega
    exact .single flows

theorem op_ne_jump (operator : LogicalOperator) : operator.op ≠ .jump := by
  cases operator <;> exact Op.noConfusion

theorem branchOp_ne_jump (keeps : Bool) : branchOp keeps ≠ .jump := by
  cases keeps <;> exact Op.noConfusion

/-- If a segment completes, there is a way through it. -/
theorem reaches_end (s : Segment) (completes : s.completes = true)
    (stands : Stands code o (s.place o n)) :
    Reaches code o (o + s.size) := by
  induction s generalizing o n with
  | plain i fixed =>
    obtain ⟨found, -⟩ := stands
    exact .single (flows_onward found (Bool.and_eq_true_iff.mp fixed).1)
  | named op text extra goesOn =>
    obtain ⟨found, -⟩ := stands
    exact .single (flows_onward found goesOn)
  | unused texts => exact .refl
  | seq first second ih₁ ih₂ =>
    rw [Segment.completes, Bool.and_eq_true] at completes
    obtain ⟨stands₁, stands₂⟩ := stands_seq.mp stands
    rw [size, ← Nat.add_assoc]
    exact (ih₁ completes.1 stands₁).trans (ih₂ completes.2 stands₂)
  | skip operator body ih =>
    obtain ⟨found, -⟩ := stands_skip.mp stands
    rw [size, Nat.add_comm body.size, ← Nat.add_assoc]
    exact .single (flows_jumpTo operator.isJump_op found)
  | branch keeps consequent alternate ih₁ ih₂ =>
    obtain ⟨found, stands₁, found', stands₂⟩ := stands_branch.mp stands
    have stop : o + (consequent.size + alternate.size + 2) =
        o + 1 + consequent.size + 1 + alternate.size := by omega
    rw [Segment.completes, Bool.or_eq_true] at completes
    rw [size, stop]
    rcases completes with completes | completes
    · have toEnd := (ih₁ completes stands₁).tail (flows_jumpTo rfl found')
      exact toEnd.head (flows_behind (isJump_branchOp keeps) (branchOp_ne_jump keeps) found)
    · exact (ih₂ completes stands₂).head (flows_jumpTo (isJump_branchOp keeps) found)
  | cycle test body ih₁ ih₂ =>
    obtain ⟨stands₁, found, -, -⟩ := stands_cycle.mp stands
    have stop : o + (test.size + body.size + 2) = o + test.size + 1 + body.size + 1 := by omega
    rw [size, stop]
    exact (ih₁ completes stands₁).tail (flows_jumpTo rfl found)
  | forever body ih => cases completes

/-- If nothing is repeated for ever, there is a way to each instruction, and to the end. -/
theorem reaches_each (s : Segment) (tested : s.isTested = true)
    (stands : Stands code o (s.place o n)) {p : Nat}
    (above : o ≤ p) (below : p ≤ o + s.size) : Reaches code o p := by
  induction s generalizing o n p with
  | plain i fixed =>
    obtain ⟨found, -⟩ := stands
    exact reaches_single (flows_onward found (Bool.and_eq_true_iff.mp fixed).1) above below
  | named op text extra goesOn =>
    obtain ⟨found, -⟩ := stands
    exact reaches_single (flows_onward found goesOn) above below
  | unused texts =>
    obtain rfl : p = o := Nat.le_antisymm below above
    exact .refl
  | seq first second ih₁ ih₂ =>
    rw [isTested, Bool.and_eq_true] at tested
    obtain ⟨stands₁, stands₂⟩ := stands_seq.mp stands
    rw [size] at below
    by_cases early : p ≤ o + first.size
    · exact ih₁ tested.1 stands₁ above early
    · have through := ih₁ tested.1 stands₁ (Nat.le_add_right _ _) le_rfl
      exact through.trans (ih₂ tested.2 stands₂ (by omega) (by omega))
  | skip operator body ih =>
    obtain ⟨found, stands⟩ := stands_skip.mp stands
    rw [size] at below
    by_cases first : p = o
    · exact first ▸ .refl
    · have inner := ih tested stands (p := p) (by omega) (by omega)
      exact inner.head (flows_behind operator.isJump_op (op_ne_jump operator) found)
  | branch keeps consequent alternate ih₁ ih₂ =>
    rw [isTested, Bool.and_eq_true] at tested
    obtain ⟨found, stands₁, found', stands₂⟩ := stands_branch.mp stands
    rw [size] at below
    by_cases first : p = o
    · exact first ▸ .refl
    by_cases left : p ≤ o + 1 + consequent.size
    · have inner := ih₁ tested.1 stands₁ (p := p) (by omega) left
      exact inner.head (flows_behind (isJump_branchOp keeps) (branchOp_ne_jump keeps) found)
    · have inner := ih₂ tested.2 stands₂ (p := p) (by omega) (by omega)
      exact inner.head (flows_jumpTo (isJump_branchOp keeps) found)
  | cycle test body ih₁ ih₂ =>
    rw [isTested, Bool.and_eq_true] at tested
    obtain ⟨stands₁, found, stands₂, -⟩ := stands_cycle.mp stands
    rw [size] at below
    have tests := ih₁ tested.1 stands₁ (Nat.le_add_right _ _) le_rfl
    by_cases early : p ≤ o + test.size
    · exact ih₁ tested.1 stands₁ above early
    by_cases last : p = o + test.size + 1 + body.size + 1
    · exact last ▸ tests.tail (flows_jumpTo rfl found)
    · have inner := ih₂ tested.2 stands₂ (p := p) (by omega) (by omega)
      exact tests.trans (inner.head (flows_behind rfl Op.noConfusion found))
  | forever body ih => cases tested

/-- Control does not leave the offsets. -/
def Trap (code : Array Instruction) (offsets : Set Nat) : Prop :=
  ∀ p ∈ offsets, ∀ q, Flows code p q → q ∈ offsets

/-- Control does not leave a trap. -/
theorem Trap.reaches {offsets : Set Nat} (trap : Trap code offsets) (mem : o ∈ offsets) {p : Nat}
    (reaches : Reaches code o p) : p ∈ offsets := by
  induction reaches with
  | refl => exact mem
  | tail _ flows ih => exact trap _ ih _ flows

/-- From a jump control goes to its target, or behind it if it is conditional. -/
theorem eq_or_of_flows_jumpTo {op : Op} {t q : Nat} (found : code[o]? = some (.jumpTo op t))
    (flows : Flows code o q) :
    q = o + 1 ∧ op ≠ .jump ∨ q = t := by
  cases flows with
  | onward found' _ falls =>
    cases found.symm.trans found'
    exact .inl ⟨rfl, falls⟩
  | jump found' target =>
    cases found.symm.trans found'
    have operand := (Instruction.target?_eq_some.mp target).2
    cases operand
    exact .inr rfl

/-- If a segment does not complete, control stays before its end. -/
theorem exists_trap (s : Segment) (stuck : s.completes = false)
    (stands : Stands code o (s.place o n)) :
    ∃ offsets, Trap code offsets ∧ o ∈ offsets ∧ offsets ⊆ Set.Ico o (o + s.size) := by
  induction s generalizing o n with
  | plain => cases stuck
  | named => cases stuck
  | unused => cases stuck
  | skip => cases stuck
  | seq first second ih₁ ih₂ =>
    obtain ⟨stands₁, stands₂⟩ := stands_seq.mp stands
    rw [size]
    by_cases left : first.completes = false
    · obtain ⟨offsets, trap, mem, inside⟩ := ih₁ left stands₁
      exact ⟨offsets, trap, mem, inside.trans (Set.Ico_subset_Ico_right (by omega))⟩
    · rw [Segment.completes, Bool.and_eq_false_iff] at stuck
      obtain ⟨offsets, trap, mem, inside⟩ := ih₂ (stuck.resolve_left left) stands₂
      -- What comes before the second part leads to its beginning.
      refine ⟨Set.Ico o (o + first.size) ∪ offsets, ?_, ?_, ?_⟩
      · intro p hp q flows
        rcases hp with hp | hp
        · obtain ⟨above, below⟩ := first.flows_within stands₁ hp.1 hp.2 flows
          by_cases last : q = o + first.size
          · exact .inr (last ▸ mem)
          · exact .inl ⟨above, by omega⟩
        · exact .inr (trap p hp q flows)
      · by_cases empty : first.size = 0
        · rw [empty] at mem
          exact .inr mem
        · exact .inl ⟨le_rfl, by omega⟩
      · apply Set.union_subset
        · exact Set.Ico_subset_Ico_right (by omega)
        · exact inside.trans (Set.Ico_subset_Ico (by omega) (by omega))
  | branch keeps consequent alternate ih₁ ih₂ =>
    obtain ⟨found, stands₁, -, stands₂⟩ := stands_branch.mp stands
    rw [Segment.completes, Bool.or_eq_false_iff] at stuck
    obtain ⟨offsets₁, trap₁, mem₁, inside₁⟩ := ih₁ stuck.1 stands₁
    obtain ⟨offsets₂, trap₂, mem₂, inside₂⟩ := ih₂ stuck.2 stands₂
    refine ⟨insert o (offsets₁ ∪ offsets₂), ?_, Set.mem_insert _ _, ?_⟩
    · intro p hp q flows
      rcases hp with rfl | hp | hp
      · rcases eq_or_of_flows_jumpTo found flows with ⟨rfl, -⟩ | rfl
        · exact .inr (.inl mem₁)
        · exact .inr (.inr mem₂)
      · exact .inr (.inl (trap₁ p hp q flows))
      · exact .inr (.inr (trap₂ p hp q flows))
    · rw [size]
      refine Set.insert_subset ?_ (Set.union_subset ?_ ?_)
      · exact ⟨le_rfl, by omega⟩
      · exact inside₁.trans (Set.Ico_subset_Ico (by omega) (by omega))
      · exact inside₂.trans (Set.Ico_subset_Ico (by omega) (by omega))
  | cycle test body ih₁ ih₂ =>
    obtain ⟨stands₁, -⟩ := stands_cycle.mp stands
    obtain ⟨offsets, trap, mem, inside⟩ := ih₁ stuck stands₁
    rw [size]
    exact ⟨offsets, trap, mem, inside.trans (Set.Ico_subset_Ico_right (by omega))⟩
  | forever body ih =>
    obtain ⟨stands, found⟩ := stands_forever.mp stands
    rw [size]
    refine ⟨Set.Ico o (o + (body.size + 1)), ?_, ⟨le_rfl, by omega⟩, subset_rfl⟩
    intro p hp q flows
    by_cases last : p = o + body.size
    · subst last
      rcases eq_or_of_flows_jumpTo found flows with ⟨-, tests⟩ | rfl
      · exact absurd rfl tests
      · exact ⟨le_rfl, by omega⟩
    · obtain ⟨above, below⟩ := body.flows_within stands hp.1 (by have := hp.2; omega) flows
      exact ⟨above, by omega⟩

end Flow

end Segment

end StackScript
