import StackScript.Proofs.StackCheck.Exact

/-!
# The depths that the check takes down

The check answers a report and forgets the depths that it has taken down on the way. Here its work
is a relation that keeps them: an accepted entry point has one depth for each offset that can be
reached, and none for the others.
-/

namespace StackScript.StackCheck

/-- The work of the check up to an end without a flaw, with the depths and the report at that
    time. -/
inductive Explores (code : Array Instruction) : (known : Array (Option Nat)) → StackReport →
    (work : List Spot) → (depths : Array (Option Nat)) → StackReport → Prop
  | done {known : Array (Option Nat)} {report : StackReport} :
      Explores code known report [] known report
  | again {known depths : Array (Option Nat)} {report result : StackReport} {spot : Spot}
      {work : List Spot} (inside : spot.offset < code.size) (seen : Seen known spot)
      (rest : Explores code known report work depths result) :
      Explores code known report (spot :: work) depths result
  | visit {known depths : Array (Option Nat)} {report result : StackReport} {spot : Spot}
      {work spots : List Spot} {i : Instruction} (found : code[spot.offset]? = some i)
      (inside : spot.offset < known.size) (fresh : known[spot.offset] = none)
      (further : next code.size spot i = .ok spots)
      (rest : Explores code (known.set spot.offset (some spot.depth)) (count report spot.depth i)
        (spots ++ work) depths result) :
      Explores code known report (spot :: work) depths result

/-- The check accepts the entry point with the report, and has taken down the depths by then. -/
def Records (code : Array Instruction) (start : Nat) (depths : Array (Option Nat))
    (report : StackReport) : Prop :=
  Explores code (Array.replicate code.size none) {} [⟨start, 0⟩] depths report

variable {code : Array Instruction} {start : Nat} {known depths : Array (Option Nat)}
  {report result : StackReport} {work : List Spot}

/-- The relation is what the check does when it accepts. -/
theorem explore_eq_ok_iff :
    explore code known report work = .ok result ↔
      ∃ depths, Explores code known report work depths result := by
  constructor
  · intro h
    fun_induction explore code known report work with
    | case1 known report =>
      cases h
      exact ⟨known, .done⟩
    | case3 known report spot work i found inside hdepth ih =>
      obtain ⟨depths, rest⟩ := ih h
      refine ⟨depths, .again (Array.getElem?_eq_some_iff.mp found).1 ?_ rest⟩
      rw [Seen, Array.getElem?_eq_getElem inside, hdepth]
    | case6 known report spot work i found inside fresh spots hspots ih =>
      obtain ⟨depths, rest⟩ := ih h
      exact ⟨depths, .visit found inside fresh hspots rest⟩
    | case2 | case4 | case5 | case7 => cases h
  · rintro ⟨depths, explores⟩
    induction explores with
    | done => rw [explore]
    | @again known depths report result spot work inside seen rest ih =>
      obtain ⟨inside', depth⟩ := Array.getElem?_eq_some_iff.mp seen
      rw [explore, Array.getElem?_eq_getElem inside]
      simp only [dif_pos inside']
      split
      · rename_i depth' hdepth
        obtain rfl : spot.depth = depth' := by simpa [depth] using hdepth
        rw [if_pos rfl, ih]
      · rename_i hnone
        simp [depth] at hnone
    | @visit known depths report result spot work spots i found inside fresh further rest ih =>
      rw [explore, found]
      simp only [dif_pos inside]
      split
      · rename_i depth hdepth
        simp [fresh] at hdepth
      · rw [further]
        exact ih

theorem exists_records (h : run code start = .ok report) :
    ∃ depths, Records code start depths report := by
  unfold run at h
  split at h
  · cases h
  · split at h
    · cases h
    · exact explore_eq_ok_iff.mp h

/-- What the check keeps as it goes holds at its end. -/
theorem Explores.progress (explores : Explores code known report work depths result)
    (progress : Progress code start known report work) :
    Progress code start depths result [] := by
  induction explores with
  | done => exact progress
  | again _ seen _ ih => exact ih (progress.drop seen)
  | visit found inside fresh further _ ih => exact ih (progress.visit found inside fresh further)

/-- The check takes down a depth for an offset if and only if a path leads there with that depth. -/
theorem Records.seen_iff (records : Records code start depths report) (spot : Spot) :
    Seen depths spot ↔ Reachable code start spot :=
  (Explores.progress records progress_initial).seen_iff_reachable spot

end StackScript.StackCheck
