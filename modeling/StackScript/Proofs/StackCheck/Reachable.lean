import Mathlib.Data.Set.Card
import Mathlib.Logic.Relation
import StackScript.Code.StackCheck

/-!
# Reachable spots

The paths that the stack check is about. A spot is an offset with a depth of the stack; an edge
leads from a spot to each spot that can follow it. The check itself keeps a list of spots to look at
and one depth for each offset; here there is only the relation, so that what the check finds out can
be said without it.
-/

namespace StackScript

/-- A jump takes the tested value, if there is one, or keeps it. -/
theorem Op.isJump_cases {op : Op} (h : op.isJump = true) :
    (op = .jump ∨ op = .jumpIfFalse) ∨ (op = .jumpIfFalseOrPop ∨ op = .jumpIfTrueOrPop) := by
  revert h
  cases op <;> simp [Op.isJump]

namespace Instruction

theorem target?_eq_some {i : Instruction} {t : Nat} :
    i.target? = some t ↔ i.op.isJump = true ∧ i.operand = some (.jump t) := by
  unfold target?
  split
  · rename_i hjump hoperand
    simp [hjump, hoperand]
  · rename_i hother
    constructor
    · intro h
      cases h
    · rintro ⟨hjump, hoperand⟩
      exact absurd hoperand (hother t hjump)

end Instruction

namespace StackCheck

/-- Control can go from one spot to another. The instruction must find as many slots as it takes.
    Both ways of a conditional jump are edges. -/
inductive Edge (code : Array Instruction) : Spot → Spot → Prop
  | onward {spot : Spot} {i : Instruction} (found : code[spot.offset]? = some i)
      (enough : i.effect.pops ≤ spot.depth) (stays : i.op ≠ .ret) (falls : i.op ≠ .jump) :
      Edge code spot ⟨spot.offset + 1, depthAfter spot.depth i⟩
  | taken {spot : Spot} {i : Instruction} {t : Nat} (found : code[spot.offset]? = some i)
      (enough : i.effect.pops ≤ spot.depth) (jumps : i.op = .jump ∨ i.op = .jumpIfFalse)
      (target : i.target? = some t) : Edge code spot ⟨t, depthAfter spot.depth i⟩
  /-- The tested value is left on the stack. -/
  | kept {spot : Spot} {i : Instruction} {t : Nat} (found : code[spot.offset]? = some i)
      (enough : i.effect.pops ≤ spot.depth)
      (jumps : i.op = .jumpIfFalseOrPop ∨ i.op = .jumpIfTrueOrPop)
      (target : i.target? = some t) : Edge code spot ⟨t, spot.depth⟩

/-- A path leads from the start, with an empty stack, to the spot. -/
def Reachable (code : Array Instruction) (start : Nat) (spot : Spot) : Prop :=
  Relation.ReflTransGen (Edge code) ⟨start, 0⟩ spot

/-- Every jump in the code has a target that is not past the end. -/
def JumpsKnown (code : Array Instruction) : Prop :=
  ∀ (offset : Nat) (i : Instruction), code[offset]? = some i → i.op.isJump = true →
    ∃ t, t ≤ code.size ∧ i.operand = some (.jump t)

/-- Nothing can go wrong with the stack on any path from the start. -/
structure Sound (code : Array Instruction) (start : Nat) : Prop where
  inside : ∀ spot, Reachable code start spot → spot.offset < code.size
  enough : ∀ spot i, Reachable code start spot → code[spot.offset]? = some i →
    i.effect.pops ≤ spot.depth
  balanced : ∀ spot i, Reachable code start spot → code[spot.offset]? = some i → i.op = .ret →
    spot.depth = 1
  agreed : ∀ a b, Reachable code start a → Reachable code start b → a.offset = b.offset →
    a.depth = b.depth

/-- The depths before and after the instructions at the given spots. -/
def depths (code : Array Instruction) (spots : Set Spot) : Set Nat :=
  {d | ∃ spot ∈ spots, ∃ i, code[spot.offset]? = some i ∧
    (d = spot.depth ∨ d = depthAfter spot.depth i)}

/-- The spots at which code returns. -/
def returning (code : Array Instruction) (spots : Set Spot) : Set Spot :=
  {spot ∈ spots | ∃ i, code[spot.offset]? = some i ∧ i.op = .ret}

/-- The report is about the instructions at the given spots. A report about no spots has depth
    zero. -/
structure Describes (code : Array Instruction) (spots : Set Spot) (report : StackReport) :
    Prop where
  bound : ∀ d ∈ depths code spots, d ≤ report.maxDepth
  attained : report.maxDepth = 0 ∨ report.maxDepth ∈ depths code spots
  reachable : report.reachable = (Spot.offset '' spots).ncard
  returns : report.returns = (Spot.offset '' returning code spots).ncard

/-- What a flaw that the check answers says about the code. -/
def Holds (code : Array Instruction) (start : Nat) : Flaw → Prop
  | .badEntry offset length => offset = start ∧ length = code.size ∧ code.size ≤ start
  | .unpatchedJump offset =>
    ∃ i, code[offset]? = some i ∧ i.op.isJump = true ∧ i.operand = some .pending
  | .targetOutOfRange offset t length =>
    length = code.size ∧ code.size < t ∧
      ∃ i, code[offset]? = some i ∧ i.op.isJump = true ∧ i.operand = some (.jump t)
  | .malformedOperand offset =>
    ∃ i, code[offset]? = some i ∧ i.op.isJump = true ∧ i.operand ≠ some .pending ∧
      ∀ t, i.operand ≠ some (.jump t)
  | .depthMismatch offset expected found =>
    expected ≠ found ∧ Reachable code start ⟨offset, expected⟩ ∧
      Reachable code start ⟨offset, found⟩
  | .underflow offset =>
    ∃ depth i, Reachable code start ⟨offset, depth⟩ ∧ code[offset]? = some i ∧
      depth < i.effect.pops
  | .unbalanced offset depth =>
    depth ≠ 1 ∧ Reachable code start ⟨offset, depth⟩ ∧
      ∃ i, code[offset]? = some i ∧ i.op = .ret
  | .fellOffEnd => ∃ spot, Reachable code start spot ∧ code.size ≤ spot.offset

/-! ## Where control goes -/

theorem target_eq_ok {length offset t : Nat} {i : Instruction} :
    target length offset i = .ok t ↔ t ≤ length ∧ i.operand = some (.jump t) := by
  unfold target
  split
  · rename_i u hoperand
    split
    · rename_i hle
      simp only [Except.ok.injEq, hoperand, Option.some.injEq, Operand.jump.injEq]
      constructor
      · rintro rfl
        exact ⟨hle, rfl⟩
      · exact fun h => h.2
    · rename_i hgt
      simp only [reduceCtorEq, hoperand, Option.some.injEq, Operand.jump.injEq, false_iff, not_and]
      rintro hle rfl
      exact hgt hle
  · rename_i hoperand
    simp [hoperand]
  · rename_i hjump hpending
    simp only [reduceCtorEq, false_iff, not_and]
    intro _ hoperand
    exact hjump t hoperand

theorem edge_iff {code : Array Instruction} {spot dest : Spot} {i : Instruction}
    (found : code[spot.offset]? = some i) :
    Edge code spot dest ↔ i.effect.pops ≤ spot.depth ∧
      (i.op ≠ .ret ∧ i.op ≠ .jump ∧ dest = ⟨spot.offset + 1, depthAfter spot.depth i⟩ ∨
        (i.op = .jump ∨ i.op = .jumpIfFalse) ∧
          (∃ t, i.target? = some t ∧ dest = ⟨t, depthAfter spot.depth i⟩) ∨
        (i.op = .jumpIfFalseOrPop ∨ i.op = .jumpIfTrueOrPop) ∧
          ∃ t, i.target? = some t ∧ dest = ⟨t, spot.depth⟩) := by
  constructor
  · intro edge
    cases edge with
    | onward found' enough stays falls =>
      cases found.symm.trans found'
      exact ⟨enough, .inl ⟨stays, falls, rfl⟩⟩
    | taken found' enough jumps target =>
      cases found.symm.trans found'
      exact ⟨enough, .inr (.inl ⟨jumps, _, target, rfl⟩)⟩
    | kept found' enough jumps target =>
      cases found.symm.trans found'
      exact ⟨enough, .inr (.inr ⟨jumps, _, target, rfl⟩)⟩
  · rintro ⟨enough, ⟨stays, falls, rfl⟩ | ⟨jumps, t, target, rfl⟩ | ⟨jumps, t, target, rfl⟩⟩
    · exact .onward found enough stays falls
    · exact .taken found enough jumps target
    · exact .kept found enough jumps target

/-- The spots that the check looks at next are those that an edge leads to. -/
theorem mem_of_next_eq_ok {code : Array Instruction} {length : Nat} {spot : Spot} {i : Instruction}
    {spots : List Spot} (found : code[spot.offset]? = some i)
    (h : next length spot i = .ok spots) (dest : Spot) : dest ∈ spots ↔ Edge code spot dest := by
  rw [edge_iff found]
  simp only [next] at h
  split at h
  · cases h
  · rename_i enough
    rw [not_lt] at enough
    -- The target of a jump is known, and it is the one that the check found.
    have known : ∀ {f : Nat → List Spot}, i.op.isJump = true →
        (target length spot.offset i).map f = .ok spots →
          ∃ t, i.target? = some t ∧ spots = f t := by
      intro f hjump hmap
      cases htarget : target length spot.offset i with
      | error flaw =>
        rw [htarget] at hmap
        cases hmap
      | ok t =>
        rw [htarget] at hmap
        cases hmap
        exact ⟨t, Instruction.target?_eq_some.mpr ⟨hjump, (target_eq_ok.mp htarget).2⟩, rfl⟩
    split at h
    · rename_i hop
      split at h
      · cases h
        simp [hop]
      · cases h
    · rename_i hop
      obtain ⟨t, ht, rfl⟩ := known (by rw [hop]; rfl) h
      simp [hop, ht, enough]
    · rename_i hop
      obtain ⟨t, ht, rfl⟩ := known (by rw [hop]; rfl) h
      simp [hop, ht, enough]
    · rename_i hop
      obtain ⟨t, ht, rfl⟩ := known (by rw [hop]; rfl) h
      simp [hop, ht, enough]
    · rename_i hop
      obtain ⟨t, ht, rfl⟩ := known (by rw [hop]; rfl) h
      simp [hop, ht, enough]
    · rename_i hret hjump hfalse hfalsePop htruePop
      cases h
      have stays : i.op ≠ .ret := fun hop => hret hop
      have falls : i.op ≠ .jump := fun hop => hjump hop
      have noTest : i.op ≠ .jumpIfFalse := fun hop => hfalse hop
      have noAnd : i.op ≠ .jumpIfFalseOrPop := fun hop => hfalsePop hop
      have noOr : i.op ≠ .jumpIfTrueOrPop := fun hop => htruePop hop
      simp [stays, falls, noTest, noAnd, noOr, enough]

/-- A spot that the check goes on from is in order. -/
theorem fine_of_next_eq_ok {length : Nat} {spot : Spot} {i : Instruction} {spots : List Spot}
    (h : next length spot i = .ok spots) :
    i.effect.pops ≤ spot.depth ∧ (i.op = .ret → spot.depth = 1) := by
  simp only [next] at h
  split at h
  · cases h
  · rename_i enough
    refine ⟨not_lt.mp enough, ?_⟩
    intro hop
    simp only [hop] at h
    split at h
    · assumption
    · cases h

/-! ## Flaws -/

theorem holds_of_target_eq_error {code : Array Instruction} {start offset : Nat}
    {i : Instruction} {flaw : Flaw} (found : code[offset]? = some i)
    (hjump : i.op.isJump = true) (h : target code.size offset i = .error flaw) :
    Holds code start flaw := by
  unfold target at h
  split at h
  · rename_i t hoperand
    split at h
    · cases h
    · rename_i hgt
      cases h
      exact ⟨rfl, not_le.mp hgt, i, found, hjump, hoperand⟩
  · rename_i hoperand
    cases h
    exact ⟨i, found, hjump, hoperand⟩
  · rename_i hnone hpending
    cases h
    exact ⟨i, found, hjump, fun hoperand => hpending hoperand,
      fun t hoperand => hnone t hoperand⟩

theorem holds_of_next_eq_error {code : Array Instruction} {start : Nat} {spot : Spot}
    {i : Instruction} {flaw : Flaw} (reached : Reachable code start spot)
    (found : code[spot.offset]? = some i) (h : next code.size spot i = .error flaw) :
    Holds code start flaw := by
  simp only [next] at h
  have jump : ∀ {f : Nat → List Spot}, i.op.isJump = true →
      (target code.size spot.offset i).map f = .error flaw → Holds code start flaw := by
    intro f hjump hmap
    cases htarget : target code.size spot.offset i with
    | ok t =>
      rw [htarget] at hmap
      cases hmap
    | error flaw' =>
      rw [htarget] at hmap
      cases hmap
      exact holds_of_target_eq_error found hjump htarget
  split at h
  · rename_i short
    cases h
    exact ⟨spot.depth, i, reached, found, short⟩
  · split at h
    · rename_i hop
      split at h
      · cases h
      · rename_i unbalanced
        cases h
        exact ⟨unbalanced, reached, i, found, hop⟩
    · exact jump (by simp [Op.isJump, *]) h
    · exact jump (by simp [Op.isJump, *]) h
    · exact jump (by simp [Op.isJump, *]) h
    · exact jump (by simp [Op.isJump, *]) h
    · cases h

theorem jumpsFrom_eq_ok {length : Nat} {rest : List Instruction} {offset : Nat} :
    jumpsFrom length offset rest = .ok () ↔
      ∀ i ∈ rest, i.op.isJump = true → ∃ t, t ≤ length ∧ i.operand = some (.jump t) := by
  induction rest generalizing offset with
  | nil => simp [jumpsFrom]
  | cons i rest ih =>
    rw [jumpsFrom, List.forall_mem_cons]
    split
    · rename_i hjump
      simp only [hjump, true_implies]
      split
      · rename_i t ht
        rw [ih]
        exact (and_iff_right ⟨t, target_eq_ok.mp ht⟩).symm
      · rename_i flaw hflaw
        simp only [reduceCtorEq, false_iff, not_and]
        rintro ⟨t, ht⟩
        rw [target_eq_ok.mpr ht] at hflaw
        cases hflaw
    · rename_i hjump
      rw [ih]
      exact (and_iff_right fun h => absurd h hjump).symm

theorem exists_of_jumpsFrom_eq_error {length : Nat} {rest : List Instruction} {offset : Nat}
    {flaw : Flaw} (h : jumpsFrom length offset rest = .error flaw) :
    ∃ k i, rest[k]? = some i ∧ i.op.isJump = true ∧
      target length (offset + k) i = .error flaw := by
  induction rest generalizing offset with
  | nil => cases h
  | cons i rest ih =>
    -- A flaw further on stands one place further from the front.
    have further (h : jumpsFrom length (offset + 1) rest = .error flaw) :
        ∃ k j, (i :: rest)[k]? = some j ∧ j.op.isJump = true ∧
          target length (offset + k) j = .error flaw := by
      obtain ⟨k, j, hj, hjump, htarget⟩ := ih h
      refine ⟨k + 1, j, by simpa using hj, hjump, ?_⟩
      rw [← htarget]
      congr 1
      omega
    rw [jumpsFrom] at h
    split at h
    · rename_i hjump
      split at h
      · exact further h
      · rename_i flaw' htarget
        cases h
        exact ⟨0, i, rfl, hjump, htarget⟩
    · exact further h

/-- The check of the jumps accepts exactly the code whose jumps all have a target. -/
theorem jumps_eq_ok {code : Array Instruction} : jumps code = .ok () ↔ JumpsKnown code := by
  rw [jumps, jumpsFrom_eq_ok, JumpsKnown]
  constructor
  · intro h offset i found
    exact h i (Array.mem_toList_iff.mpr (Array.mem_of_getElem? found))
  · intro h i hi
    obtain ⟨offset, found⟩ := List.getElem?_of_mem hi
    exact h offset i (by rw [← found, Array.getElem?_toList])

theorem holds_of_jumps_eq_error {code : Array Instruction} {start : Nat} {flaw : Flaw}
    (h : jumps code = .error flaw) : Holds code start flaw := by
  obtain ⟨k, i, found, hjump, htarget⟩ := exists_of_jumpsFrom_eq_error h
  rw [Nat.zero_add] at htarget
  exact holds_of_target_eq_error (by rw [← found, Array.getElem?_toList]) hjump htarget

end StackCheck

end StackScript
