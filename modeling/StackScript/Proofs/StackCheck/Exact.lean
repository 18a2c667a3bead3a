import StackScript.Proofs.StackCheck.Reachable

/-!
# The stack check is exact

The check keeps an invariant as it looks at spots: all it has seen or put off can be reached, and
what follows from a spot it has seen is seen or put off. When nothing is left, the spots it has seen
are therefore all that can be reached. When it answers a flaw, it is at a spot that can be reached,
so that the flaw is there. The order in which it looks at spots has no part in this.
-/

namespace StackScript.StackCheck

/-! ## Reports -/

section Describes

variable {code : Array Instruction} {spots : Set Spot} {report : StackReport} {spot : Spot}
  {i : Instruction}

/-- One more spot adds its depth, and the depth behind its instruction. -/
theorem mem_depths_insert (found : code[spot.offset]? = some i) {d : Nat} :
    d ∈ depths code (insert spot spots) ↔
      d = spot.depth ∨ d = depthAfter spot.depth i ∨ d ∈ depths code spots := by
  constructor
  · rintro ⟨other, hother, j, hj, hd⟩
    rcases hother with rfl | hother
    · cases found.symm.trans hj
      exact hd.imp_right .inl
    · exact .inr (.inr ⟨other, hother, j, hj, hd⟩)
  · rintro (hd | hd | ⟨other, hother, j, hj, hd⟩)
    · exact ⟨spot, .inl rfl, i, found, .inl hd⟩
    · exact ⟨spot, .inl rfl, i, found, .inr hd⟩
    · exact ⟨other, .inr hother, j, hj, hd⟩

/-- One more spot is one more return, if a return stands there. -/
theorem returning_insert (found : code[spot.offset]? = some i) :
    returning code (insert spot spots) =
      if i.op = .ret then insert spot (returning code spots) else returning code spots := by
  ext other
  constructor
  · rintro ⟨rfl | hother, j, hj, hret⟩
    · cases found.symm.trans hj
      rw [if_pos hret]
      exact .inl rfl
    · split
      · exact .inr ⟨hother, j, hj, hret⟩
      · exact ⟨hother, j, hj, hret⟩
  · split
    · rename_i hret
      rintro (rfl | ⟨hother, j, hj, hret⟩)
      · exact ⟨.inl rfl, i, found, hret⟩
      · exact ⟨.inr hother, j, hj, hret⟩
    · rintro ⟨hother, j, hj, hret⟩
      exact ⟨.inr hother, j, hj, hret⟩

theorem describes_empty : Describes code ∅ {} where
  bound := by
    rintro d ⟨spot, ⟨⟩, _⟩
  attained := .inl rfl
  reachable := by simp
  returns := by simp [returning]

/-- Counting an instruction at an offset that has no spot yet. -/
theorem Describes.insert (described : Describes code spots report)
    (finite : (Spot.offset '' spots).Finite) (found : code[spot.offset]? = some i)
    (fresh : spot.offset ∉ Spot.offset '' spots) :
    Describes code (insert spot spots) (count report spot.depth i) where
  bound := by
    intro d hd
    rw [mem_depths_insert found] at hd
    simp only [count]
    rcases hd with rfl | rfl | hd
    · omega
    · omega
    · have := described.bound d hd
      omega
  attained := by
    simp only [count, mem_depths_insert found]
    -- The greatest depth is one of the two new ones unless it was greatest before.
    by_cases hbefore : max report.maxDepth spot.depth ≤ depthAfter spot.depth i
    · exact .inr (.inr (.inl (max_eq_right hbefore)))
    · rw [max_eq_left (by omega)]
      by_cases hdepth : report.maxDepth ≤ spot.depth
      · exact .inr (.inl (max_eq_right hdepth))
      · rw [max_eq_left (by omega)]
        exact described.attained.imp_right fun h => .inr (.inr h)
  reachable := by
    rw [Set.image_insert_eq, Set.ncard_insert_of_notMem fresh finite, ← described.reachable]
    rfl
  returns := by
    have hsub : Spot.offset '' returning code spots ⊆ Spot.offset '' spots :=
      Set.image_mono fun _ h => h.1
    rw [returning_insert found]
    simp only [count]
    split
    · rw [Set.image_insert_eq, Set.ncard_insert_of_notMem (fun h => fresh (hsub h))
        (finite.subset hsub), ← described.returns]
    · exact described.returns

/-- There is only one report about given spots. -/
theorem Describes.unique {other : StackReport} (first : Describes code spots report)
    (second : Describes code spots other) : report = other := by
  have hdepth : report.maxDepth = other.maxDepth := by
    apply Nat.le_antisymm
    · rcases first.attained with h | h
      · omega
      · exact second.bound _ h
    · rcases second.attained with h | h
      · omega
      · exact first.bound _ h
  obtain ⟨depth, reachable, returns⟩ := report
  obtain ⟨depth', reachable', returns'⟩ := other
  congr 1
  · exact first.reachable.trans second.reachable.symm
  · exact first.returns.trans second.returns.symm

end Describes

/-! ## The invariant -/

/-- The instruction at the spot has been looked at, with that depth. -/
def Seen (known : Array (Option Nat)) (spot : Spot) : Prop :=
  known[spot.offset]? = some (some spot.depth)

/-- Everything that the check knows is right, and what it has not seen follows from what it has put
    off. -/
structure Progress (code : Array Instruction) (start : Nat) (known : Array (Option Nat))
    (report : StackReport) (work : List Spot) : Prop where
  size : known.size = code.size
  begun : Seen known ⟨start, 0⟩ ∨ ⟨start, 0⟩ ∈ work
  seen : ∀ spot, Seen known spot → Reachable code start spot
  put : ∀ spot ∈ work, Reachable code start spot
  closed : ∀ spot dest, Seen known spot → Edge code spot dest → Seen known dest ∨ dest ∈ work
  fine : ∀ spot i, Seen known spot → code[spot.offset]? = some i →
    i.effect.pops ≤ spot.depth ∧ (i.op = .ret → spot.depth = 1)
  described : Describes code {spot | Seen known spot} report

section Progress

variable {code : Array Instruction} {start : Nat} {known : Array (Option Nat)}
  {report : StackReport} {work : List Spot} {spot : Spot} {i : Instruction}

/-- There is one depth for each offset that was seen. -/
theorem Seen.agrees {a b : Spot} (ha : Seen known a) (hb : Seen known b)
    (h : a.offset = b.offset) : a.depth = b.depth := by
  unfold Seen at ha hb
  rw [h, hb] at ha
  simpa using ha.symm

theorem Seen.offset_lt (h : Seen known spot) : spot.offset < known.size :=
  (Array.getElem?_eq_some_iff.mp h).1

theorem finite_offsets_seen : (Spot.offset '' {spot | Seen known spot}).Finite := by
  apply (Set.finite_lt_nat known.size).subset
  rintro offset ⟨spot, hspot, rfl⟩
  exact hspot.offset_lt

/-- A spot without a known depth has not been seen. -/
theorem notMem_offsets_seen (inside : spot.offset < known.size)
    (fresh : known[spot.offset] = none) :
    spot.offset ∉ Spot.offset '' {spot | Seen known spot} := by
  rintro ⟨other, hother, hoffset⟩
  have hnone : known[spot.offset]? = some none := by rw [Array.getElem?_eq_getElem inside, fresh]
  rw [Set.mem_ofPred_eq, Seen, hoffset, hnone] at hother
  cases hother

/-- Taking down the depth of a spot adds just this spot. -/
theorem seen_set (inside : spot.offset < known.size) (fresh : known[spot.offset] = none) :
    {other | Seen (known.set spot.offset (some spot.depth)) other} =
      insert spot {other | Seen known other} := by
  ext other
  simp only [Set.mem_ofPred_eq, Set.mem_insert_iff, Seen, Array.getElem?_set]
  split
  · rename_i hoffset
    have hnone : known[other.offset]? = some none := by
      rw [← hoffset, Array.getElem?_eq_getElem inside, fresh]
    rw [hnone]
    constructor
    · intro h
      left
      cases spot
      cases other
      simp_all
    · rintro (rfl | h)
      · rfl
      · cases h
  · rename_i hoffset
    constructor
    · exact .inr
    · rintro (rfl | h)
      · exact absurd rfl hoffset
      · exact h

/-- Nothing has been seen, and the start is to be visited. -/
theorem progress_initial :
    Progress code start (Array.replicate code.size none) {} [⟨start, 0⟩] := by
  have unseen : {spot | Seen (Array.replicate code.size none) spot} = ∅ := by
    ext spot
    simp only [Set.mem_ofPred_eq, Seen, Array.getElem?_replicate,
      Set.mem_empty_iff_false, iff_false]
    split <;> simp
  have none_seen (spot : Spot) : ¬ Seen (Array.replicate code.size none) spot :=
    Set.eq_empty_iff_forall_notMem.mp unseen spot
  exact {
    size := Array.size_replicate
    begun := .inr (List.mem_singleton.mpr rfl)
    seen := fun spot h => absurd h (none_seen spot)
    put := by
      intro spot hspot
      rw [List.mem_singleton.mp hspot]
      exact .refl
    closed := fun spot _ h => absurd h (none_seen spot)
    fine := fun spot _ h => absurd h (none_seen spot)
    described := unseen ▸ describes_empty }

/-- A spot that was seen before can be dropped. -/
theorem Progress.drop (progress : Progress code start known report (spot :: work))
    (hseen : Seen known spot) : Progress code start known report work where
  size := progress.size
  begun := by
    rcases progress.begun with h | h
    · exact .inl h
    · rcases List.mem_cons.mp h with rfl | h
      · exact .inl hseen
      · exact .inr h
  seen := progress.seen
  put := fun other h => progress.put other (List.mem_cons_of_mem _ h)
  closed := by
    intro other dest hother hedge
    rcases progress.closed other dest hother hedge with h | h
    · exact .inl h
    · rcases List.mem_cons.mp h with rfl | h
      · exact .inl hseen
      · exact .inr h
  fine := progress.fine
  described := progress.described

/-- A spot that has not been seen is taken down, and what follows from it is put off. -/
theorem Progress.visit {spots : List Spot}
    (progress : Progress code start known report (spot :: work))
    (found : code[spot.offset]? = some i) (inside : spot.offset < known.size)
    (fresh : known[spot.offset] = none) (h : next code.size spot i = .ok spots) :
    Progress code start (known.set spot.offset (some spot.depth)) (count report spot.depth i)
      (spots ++ work) := by
  have seen_iff (other : Spot) : Seen (known.set spot.offset (some spot.depth)) other ↔
      other = spot ∨ Seen known other :=
    Set.ext_iff.mp (seen_set inside fresh) other
  -- What was put off is still put off, but for the spot itself, which is seen now.
  have moved (other : Spot) (hother : Seen known other ∨ other ∈ spot :: work) :
      Seen (known.set spot.offset (some spot.depth)) other ∨ other ∈ spots ++ work := by
    rcases hother with hother | hother
    · exact .inl ((seen_iff other).mpr (.inr hother))
    · rcases List.mem_cons.mp hother with rfl | hother
      · exact .inl ((seen_iff _).mpr (.inl rfl))
      · exact .inr (List.mem_append_right _ hother)
  have reached : Reachable code start spot := progress.put spot List.mem_cons_self
  exact {
    size := by rw [Array.size_set, progress.size]
    begun := moved _ progress.begun
    seen := by
      intro other hother
      rcases (seen_iff other).mp hother with rfl | hother
      · exact reached
      · exact progress.seen other hother
    put := by
      intro other hother
      rcases List.mem_append.mp hother with hother | hother
      · exact reached.tail ((mem_of_next_eq_ok found h other).mp hother)
      · exact progress.put other (List.mem_cons_of_mem _ hother)
    closed := by
      intro other dest hother hedge
      rcases (seen_iff other).mp hother with rfl | hother
      · exact .inr (List.mem_append_left _ ((mem_of_next_eq_ok found h dest).mpr hedge))
      · exact moved dest (progress.closed other dest hother hedge)
    fine := by
      intro other j hother hj
      rcases (seen_iff other).mp hother with rfl | hother
      · cases found.symm.trans hj
        exact fine_of_next_eq_ok h
      · exact progress.fine other j hother hj
    described := by
      rw [seen_set inside fresh]
      exact progress.described.insert finite_offsets_seen found (notMem_offsets_seen inside fresh) }

/-- When nothing is put off any more, the spots that were seen are those that can be reached. -/
theorem Progress.seen_iff_reachable (progress : Progress code start known report []) (spot : Spot) :
    Seen known spot ↔ Reachable code start spot := by
  constructor
  · exact progress.seen spot
  · intro reached
    induction reached with
    | refl => exact progress.begun.resolve_right List.not_mem_nil
    | tail _ hedge ih => exact (progress.closed _ _ ih hedge).resolve_right List.not_mem_nil

/-- When nothing is left to visit, no flaw can be reached. -/
theorem Progress.sound (progress : Progress code start known report []) : Sound code start where
  inside := by
    intro spot reached
    rw [← progress.size]
    exact ((progress.seen_iff_reachable spot).mpr reached).offset_lt
  enough := fun spot i reached found =>
    (progress.fine spot i ((progress.seen_iff_reachable spot).mpr reached) found).1
  balanced := fun spot i reached found =>
    (progress.fine spot i ((progress.seen_iff_reachable spot).mpr reached) found).2
  agreed := fun a b ha hb =>
    ((progress.seen_iff_reachable a).mpr ha).agrees ((progress.seen_iff_reachable b).mpr hb)

/-- When nothing is left to visit, the report is about what can be reached. -/
theorem Progress.describes (progress : Progress code start known report []) :
    Describes code {spot | Reachable code start spot} report := by
  have h : {spot | Seen known spot} = {spot | Reachable code start spot} :=
    Set.ext progress.seen_iff_reachable
  exact h ▸ progress.described

/-- What the answer of the check says. -/
def Answers (code : Array Instruction) (start : Nat) : Except Flaw StackReport → Prop
  | .ok report => Sound code start ∧ Describes code {spot | Reachable code start spot} report
  | .error flaw => Holds code start flaw

/-- Exploring from any state of progress gives a right answer. -/
theorem explore_answers (progress : Progress code start known report work) :
    Answers code start (explore code known report work) := by
  fun_induction explore code known report work with
  | case1 known report => exact ⟨progress.sound, progress.describes⟩
  | case2 known report spot work outside =>
    exact ⟨spot, progress.put spot List.mem_cons_self, Array.getElem?_eq_none_iff.mp outside⟩
  | case3 known report spot work i found inside hdepth ih =>
    apply ih
    apply progress.drop
    rw [Seen, Array.getElem?_eq_getElem inside, hdepth]
  | case4 known report spot work i found inside depth hdepth differs =>
    have hseen : Seen known ⟨spot.offset, depth⟩ := by
      rw [Seen, Array.getElem?_eq_getElem inside, hdepth]
    exact ⟨differs, progress.seen _ hseen, progress.put spot List.mem_cons_self⟩
  | case5 known report spot work i found inside fresh flaw hflaw =>
    exact holds_of_next_eq_error (progress.put spot List.mem_cons_self) found hflaw
  | case6 known report spot work i found inside fresh spots hspots ih =>
    exact ih (progress.visit found inside fresh hspots)
  | case7 known report spot work i found outside =>
    refine ⟨spot, progress.put spot List.mem_cons_self, ?_⟩
    rw [← progress.size]
    exact not_lt.mp outside

end Progress

/-! ## The check -/

section Run

variable {code : Array Instruction} {start : Nat} {report : StackReport}

/-- The check gives a right answer. -/
theorem run_answers (code : Array Instruction) (start : Nat) :
    Answers code start (run code start) := by
  unfold run
  split
  · rename_i outside
    exact ⟨rfl, rfl, outside⟩
  · split
    · rename_i flaw hflaw
      exact holds_of_jumps_eq_error hflaw
    · exact explore_answers progress_initial

/-- What is checked first. -/
theorem entry_of_run_eq_ok (h : run code start = .ok report) :
    start < code.size ∧ JumpsKnown code := by
  unfold run at h
  split at h
  · cases h
  · rename_i inside
    split at h
    · cases h
    · rename_i hjumps
      exact ⟨not_le.mp inside, jumps_eq_ok.mp hjumps⟩

/-- No flaw can be reached in code that was accepted. -/
theorem sound_of_run_eq_ok (h : run code start = .ok report) : Sound code start := by
  have answers := run_answers code start
  rw [h] at answers
  exact answers.1

/-- The report of code that was accepted is about what can be reached. -/
theorem describes_of_run_eq_ok (h : run code start = .ok report) :
    Describes code {spot | Reachable code start spot} report := by
  have answers := run_answers code start
  rw [h] at answers
  exact answers.2

/-- Each flaw is an obstacle to soundness or to the jumps. -/
theorem not_holds (inside : start < code.size) (known : JumpsKnown code)
    (sound : Sound code start) (flaw : Flaw) : ¬ Holds code start flaw := by
  cases flaw with
  | badEntry offset length =>
    rintro ⟨_, _, outside⟩
    omega
  | unpatchedJump offset =>
    rintro ⟨i, found, hjump, hoperand⟩
    obtain ⟨t, _, ht⟩ := known offset i found hjump
    rw [ht] at hoperand
    cases hoperand
  | targetOutOfRange offset target length =>
    rintro ⟨_, beyond, i, found, hjump, hoperand⟩
    obtain ⟨t, hle, ht⟩ := known offset i found hjump
    rw [ht] at hoperand
    cases hoperand
    omega
  | depthMismatch offset expected found =>
    rintro ⟨differs, hexpected, hfound⟩
    exact differs (sound.agreed _ _ hexpected hfound rfl)
  | underflow offset =>
    rintro ⟨depth, i, reached, found, short⟩
    exact absurd (sound.enough _ i reached found) (not_le.mpr short)
  | unbalanced offset depth =>
    rintro ⟨differs, reached, i, found, hret⟩
    exact differs (sound.balanced _ i reached found hret)
  | fellOffEnd =>
    rintro ⟨spot, reached, outside⟩
    exact absurd (sound.inside spot reached) (not_lt.mpr outside)
  | malformedOperand offset =>
    rintro ⟨i, found, hjump, _, other⟩
    obtain ⟨t, _, ht⟩ := known offset i found hjump
    exact other t ht

/-- Code without a flaw is accepted. -/
theorem exists_run_eq_ok (inside : start < code.size) (known : JumpsKnown code)
    (sound : Sound code start) : ∃ report, run code start = .ok report := by
  have answers := run_answers code start
  cases h : run code start with
  | ok report => exact ⟨report, rfl⟩
  | error flaw =>
    rw [h] at answers
    exact absurd answers (not_holds inside known sound flaw)

/-- The start is among the spots of a report, so that its greatest depth is one of theirs. -/
theorem isGreatest_maxDepth (h : run code start = .ok report) :
    IsGreatest (depths code {spot | Reachable code start spot}) report.maxDepth := by
  have described := describes_of_run_eq_ok h
  have inside := (entry_of_run_eq_ok h).1
  refine ⟨?_, described.bound⟩
  rcases described.attained with hzero | hmem
  · rw [hzero]
    exact ⟨⟨start, 0⟩, .refl, code[start], Array.getElem?_eq_getElem inside, .inl rfl⟩
  · exact hmem

/-- The check accepts exactly the code whose jumps are known and from whose start nothing can go
    wrong; it reports on exactly the instructions that can be reached; and a flaw that it answers is
    really there. -/
theorem run_exact (code : Array Instruction) (start : Nat) :
    ((∃ report, run code start = .ok report) ↔
      start < code.size ∧ JumpsKnown code ∧ Sound code start) ∧
    (∀ report, run code start = .ok report →
      IsGreatest (depths code {spot | Reachable code start spot}) report.maxDepth ∧
      report.reachable = (Spot.offset '' {spot | Reachable code start spot}).ncard ∧
      report.returns =
        (Spot.offset '' returning code {spot | Reachable code start spot}).ncard) ∧
    ∀ flaw, run code start = .error flaw → Holds code start flaw := by
  refine ⟨⟨?_, ?_⟩, ?_, ?_⟩
  · rintro ⟨report, h⟩
    obtain ⟨inside, known⟩ := entry_of_run_eq_ok h
    exact ⟨inside, known, sound_of_run_eq_ok h⟩
  · rintro ⟨inside, known, sound⟩
    exact exists_run_eq_ok inside known sound
  · intro report h
    have described := describes_of_run_eq_ok h
    exact ⟨isGreatest_maxDepth h, described.reachable, described.returns⟩
  · intro flaw h
    have answers := run_answers code start
    rw [h] at answers
    exact answers

end Run

end StackScript.StackCheck
