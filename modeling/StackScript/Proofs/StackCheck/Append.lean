import StackScript.Proofs.StackCheck.Exact

/-!
# Code behind code

Paths that stay inside of code do not notice what stands behind it. So the check of an entry point
that it accepted once does not change when more code is added, as long as the jumps of that code are
known.
-/

namespace StackScript.StackCheck

variable {code tail : Array Instruction} {start : Nat} {report : StackReport}

theorem getElem?_append_of_lt {offset : Nat} (inside : offset < code.size) :
    (code ++ tail)[offset]? = code[offset]? :=
  Array.getElem?_append_left inside

theorem edge_append {spot dest : Spot} (inside : spot.offset < code.size) :
    Edge (code ++ tail) spot dest ↔ Edge code spot dest := by
  have found : code[spot.offset]? = some code[spot.offset] := Array.getElem?_eq_getElem inside
  rw [edge_iff found, edge_iff ((getElem?_append_of_lt inside).trans found)]

/-- A path along which control stays in the code is a path of the longer code, and there are no
    others. -/
theorem reachable_append (tail : Array Instruction)
    (inside : ∀ spot, Reachable code start spot → spot.offset < code.size) (spot : Spot) :
    Reachable (code ++ tail) start spot ↔ Reachable code start spot := by
  constructor
  · intro reached
    induction reached with
    | refl => exact .refl
    | tail _ hedge ih => exact ih.tail ((edge_append (inside _ ih)).mp hedge)
  · intro reached
    induction reached with
    | refl => exact .refl
    | tail before hedge ih => exact ih.tail ((edge_append (inside _ before)).mpr hedge)

theorem Sound.append (tail : Array Instruction) (sound : Sound code start) :
    Sound (code ++ tail) start := by
  have same := reachable_append tail sound.inside
  have found {spot : Spot} {i : Instruction} (reached : Reachable code start spot)
      (h : (code ++ tail)[spot.offset]? = some i) : code[spot.offset]? = some i := by
    rw [← h, getElem?_append_of_lt (sound.inside spot reached)]
  exact {
    inside := by
      intro spot reached
      have := sound.inside spot ((same spot).mp reached)
      rw [Array.size_append]
      omega
    enough := by
      intro spot i reached h
      rw [same] at reached
      exact sound.enough spot i reached (found reached h)
    balanced := by
      intro spot i reached h
      rw [same] at reached
      exact sound.balanced spot i reached (found reached h)
    agreed := fun a b ha hb => sound.agreed a b ((same a).mp ha) ((same b).mp hb) }

theorem depths_append (tail : Array Instruction) {spots : Set Spot}
    (inside : ∀ spot ∈ spots, spot.offset < code.size) :
    depths (code ++ tail) spots = depths code spots := by
  ext d
  simp only [depths, Set.mem_ofPred_eq]
  refine exists_congr fun spot => and_congr_right fun hspot => ?_
  rw [getElem?_append_of_lt (inside spot hspot)]

theorem returning_append (tail : Array Instruction) {spots : Set Spot}
    (inside : ∀ spot ∈ spots, spot.offset < code.size) :
    returning (code ++ tail) spots = returning code spots := by
  ext spot
  refine and_congr_right fun hspot => ?_
  rw [getElem?_append_of_lt (inside spot hspot)]

/-- A report about spots inside of the code does not depend on what stands behind it. -/
theorem Describes.of_append {spots : Set Spot} (inside : ∀ spot ∈ spots, spot.offset < code.size)
    (described : Describes (code ++ tail) spots report) : Describes code spots report where
  bound := by
    rw [← depths_append tail inside]
    exact described.bound
  attained := by
    rw [← depths_append tail inside]
    exact described.attained
  reachable := described.reachable
  returns := by
    rw [← returning_append tail inside]
    exact described.returns

/-- The report on an entry point stays the same when code is added. -/
theorem run_append_eq_ok (h : run code start = .ok report) (known : JumpsKnown (code ++ tail)) :
    run (code ++ tail) start = .ok report := by
  have sound := sound_of_run_eq_ok h
  have inside : start < (code ++ tail).size := by
    have := (entry_of_run_eq_ok h).1
    rw [Array.size_append]
    omega
  obtain ⟨longer, hlonger⟩ := exists_run_eq_ok inside known (sound.append tail)
  have described := describes_of_run_eq_ok hlonger
  have same : {spot | Reachable (code ++ tail) start spot} = {spot | Reachable code start spot} :=
    Set.ext (reachable_append tail sound.inside)
  rw [same] at described
  rw [hlonger, (described.of_append sound.inside).unique (describes_of_run_eq_ok h)]

/-- The jumps are all that can go wrong behind an entry point that was accepted: the longer code is
    accepted there exactly if its jumps are known, and then with the same report. -/
theorem run_append (h : run code start = .ok report) (tail : Array Instruction) :
    run (code ++ tail) start = .ok report ↔ jumps (code ++ tail) = .ok () := by
  constructor
  · intro accepted
    exact jumps_eq_ok.mpr (entry_of_run_eq_ok accepted).2
  · intro known
    exact run_append_eq_ok h (jumps_eq_ok.mp known)

/-- A loop, and behind its return a jump to the very end. -/
def jumpToEnd : Array Instruction :=
  #[{ op := .pushTrue }, { op := .jumpIfFalse, operand := some (.jump 3) },
    { op := .jump, operand := some (.jump 0) }, { op := .pushNull }, { op := .ret },
    { op := .jump, operand := some (.jump 6) }]

/-- Code that would underflow, with a jump into the loop. -/
def jumpBack : Array Instruction :=
  #[{ op := .pop }, { op := .jump, operand := some (.jump 2) }]

/-- The jump to the end now leads to an underflow, but the loop does not get there. -/
theorem run_append_jumpBack :
    run jumpToEnd 0 = .ok ⟨1, 5, 1⟩ ∧ jumps (jumpToEnd ++ jumpBack) = .ok () ∧
      run (jumpToEnd ++ jumpBack) 0 = .ok ⟨1, 5, 1⟩ := by
  have accepted : run jumpToEnd 0 = .ok ⟨1, 5, 1⟩ := by cbv
  have known : jumps (jumpToEnd ++ jumpBack) = .ok () := by cbv
  exact ⟨accepted, known, (run_append accepted jumpBack).mpr known⟩

end StackScript.StackCheck
