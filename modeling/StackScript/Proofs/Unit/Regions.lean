import StackScript.Proofs.Machine.Control
import StackScript.Proofs.Segment.Fragments
import StackScript.Proofs.Unit.Escapes
import StackScript.Proofs.Unit.Invariant
import StackScript.Proofs.Unit.Kinds

/-!
# The regions of a unit

Each part of a tree is a region of the code of the whole unit: not only of the entry point that it
belongs to, since no jump leads from one entry point into another, nor from what is left where
memory ran out. So what a test leaves out is not carried out before control has been at the end of
the choice.
-/

namespace StackScript

open Compile Running

/-- Each jump of the region stays in it or leads to its end, and no other jump leads into its
    middle. -/
structure ClosedRegion (code : Array Instruction) (lo hi : Nat) : Prop where
  inside : ∀ o i, lo ≤ o → o < hi → code[o]? = some i → i.op.isJump = true →
    ∃ t, i.target? = some t ∧ lo ≤ t ∧ t ≤ hi
  outside : ∀ o i t, ¬(lo ≤ o ∧ o < hi) → code[o]? = some i → i.target? = some t →
    ¬(lo < t ∧ t < hi)

namespace Fragment

/-- What compiling the tree does. -/
def compile : Fragment → Compile Unit
  | .value e => e.compile
  | .place e create => e.compileReference create
  | .statement s => s.compile

theorem emits_place (e : Expression) (create : Bool) (d : Draft) :
    Emits (e.compileReference create) (e.referenceSegment create) d := by
  by_cases reference : e.isReference = true
  · exact e.emits_compileReference reference create d
  · cases e
    case name | member | index => exact absurd rfl reference
    all_goals
      rw [Expression.compileReference, Expression.lowerReference, Expression.referenceSegment]
      · exact emits_nothing
      all_goals simp

theorem writes_segment (f : Fragment) (o n : Nat) : Writes f.compile o n (f.segment.place o n) := by
  cases f with
  | value e =>
    rintro d d' rfl rfl done
    exact (e.emits_compile d).written done
  | place e create =>
    rintro d d' rfl rfl done
    exact (emits_place e create d).written done
  | statement s => exact s.writes_segment o n

/-! ## What a choice leaves out -/

/-- The part of a tree whose value decides what is left out. -/
def test? : Fragment → Option Fragment
  | .value (.logical _ left _) => some (.value left)
  | .value (.conditional test _ _) => some (.value test)
  | .statement (.ifElse test _ _) => some (.value test)
  | _ => none

/-- If this is the value of its test, the tree leaves out a part, which begins those many
    instructions into its code. -/
inductive LeavesOut (x : Value) : Fragment → Fragment → Nat → Prop
  | right {operator : LogicalOperator} {left right : Expression} : operator.decides x = true →
      LeavesOut x (.value (.logical operator left right)) (.value right) (size (.value left) + 1)
  | consequent {test consequent alternate : Expression} : x.truthy = false →
      LeavesOut x (.value (.conditional test consequent alternate)) (.value consequent)
        (size (.value test) + 1)
  | alternate {test consequent alternate : Expression} : x.truthy = true →
      LeavesOut x (.value (.conditional test consequent alternate)) (.value alternate)
        (size (.value test) + 1 + size (.value consequent) + 2)
  | thenStatement {test : Expression} {consequent : Statement} {alternate : Option Statement} :
      x.truthy = false →
      LeavesOut x (.statement (.ifElse test consequent alternate)) (.statement consequent)
        (size (.value test) + 1)
  | elseStatement {test : Expression} {consequent alternate : Statement} : x.truthy = true →
      LeavesOut x (.statement (.ifElse test consequent (some alternate))) (.statement alternate)
        (size (.value test) + 1 + size (.statement consequent) + 1)

theorem LeavesOut.holds {x : Value} {f g : Fragment} {k : Nat} (h : LeavesOut x f g k) :
    Holds g f.items k := by
  have same {items : List Item} {j : Nat} (eq : j = k) (holds : Holds g items j) :
      Holds g items k := eq ▸ holds
  cases h with
  | right _ => exact .later (.later .here)
  | consequent _ => exact .later (.later .here)
  | alternate _ =>
    refine same ?_ (.later (.later (.later (.later (.later .here)))))
    simp only [Item.size]
    omega
  | thenStatement _ => exact .later (.later .here)
  | elseStatement _ =>
    refine same ?_ (.later (.later (.later (.later .here))))
    simp only [Item.size]
    omega

section Tested

variable {code : Runnable} {f g test : Fragment} {x : Value} {m : Machine} {rest : List Slot}
  {o n k : Nat}

/-- The code of a test is followed by a jump that takes the value. -/
theorem exists_jump_of_test? {code : Array Instruction} (tested : f.test? = some test)
    (stands : Stands code o (f.segment.place o n)) : ∃ i, code[o + test.size]? = some i ∧
      i.takes = [.value] := by
  unfold test? at tested
  split at tested
  · rename_i operator left right
    cases tested
    rw [segment, Expression.segment] at stands
    refine ⟨_, (Segment.stands_skip.mp (Segment.stands_seq.mp stands).2).1, ?_⟩
    cases operator <;> rfl
  · cases tested
    rw [segment, Expression.segment] at stands
    exact ⟨_, (Segment.stands_branch.mp (Segment.stands_seq.mp stands).2).1, rfl⟩
  · cases tested
    rw [segment, Statement.segment] at stands
    exact ⟨_, (Segment.stands_branch.mp (Segment.stands_seq.mp stands).2).1, rfl⟩
  · cases tested

/-- What is left out is not carried out before control has been at the end of the tree. -/
theorem LeavesOut.avoids (out : LeavesOut x f g k) (tested : f.test? = some test)
    (stands : Stands code.instructions o (f.segment.place o n)) :
    Avoids code ⟨m, .value x :: rest, o + test.size⟩ (o + k) (o + k + g.size) (o + f.size) := by
  cases out with
  | right decides =>
    cases tested
    rw [segment, Expression.segment] at stands
    refine (avoids_skipped (Segment.stands_seq.mp stands).2 decides).mono ?_ ?_ ?_
    all_goals
      simp only [size, segment, Expression.segment, Segment.size]
      omega
  | consequent fails =>
    cases tested
    rw [segment, Expression.segment] at stands
    refine (avoids_consequent (Segment.stands_seq.mp stands).2 fails).mono ?_ ?_ ?_
    all_goals
      simp only [size, segment, Expression.segment, Segment.size]
      omega
  | alternate holds =>
    cases tested
    rw [segment, Expression.segment] at stands
    refine (avoids_alternate (Segment.stands_seq.mp stands).2 holds).mono ?_ ?_ ?_
    all_goals
      simp only [size, segment, Expression.segment, Segment.size, Segment.op]
      omega
  | thenStatement fails =>
    cases tested
    rw [segment, Statement.segment] at stands
    refine (avoids_consequent (Segment.stands_seq.mp stands).2 fails).mono ?_ ?_ ?_
    all_goals
      simp only [size, segment, Statement.segment, Segment.size]
      omega
  | elseStatement holds =>
    cases tested
    rw [segment, Statement.segment] at stands
    refine (avoids_alternate (Segment.stands_seq.mp stands).2 holds).mono ?_ ?_ ?_
    all_goals
      simp only [size, segment, Statement.segment, Segment.size, alternateSegment]
      omega

end Tested

end Fragment

/-! ## Jumps of a whole unit -/

/-- The jumps from an offset on lead neither before it nor out of the code. -/
structure Confined (start : Nat) (code : List Instruction) : Prop where
  start_le : start ≤ code.length
  jumps : ∀ k i t, start ≤ k → code[k]? = some i → i.target? = some t → start ≤ t ∧ t ≤ code.length

theorem Instruction.target?_of_goesOn {i : Instruction} (h : i.op.goesOn = true) :
    i.target? = none := by
  rw [Option.eq_none_iff_forall_ne_some]
  intro t target
  have jumps := (target?_eq_some.mp target).1
  simp [Op.goesOn, jumps] at h

theorem confined_length (code : List Instruction) : Confined code.length code where
  start_le := le_rfl
  jumps k i t above found _ := by
    rw [List.getElem?_eq_none above] at found
    cases found

theorem Confined.push {start : Nat} {code : List Instruction} (h : Confined start code)
    {i : Instruction}
    (own : ∀ t, i.target? = some t → start ≤ t ∧ t ≤ code.length) :
    Confined start (code ++ [i]) where
  start_le := by
    have := h.start_le
    rw [List.length_append]
    omega
  jumps k j t above found target := by
    rw [List.length_append, List.length_singleton]
    by_cases old : k < code.length
    · rw [List.getElem?_append_left old] at found
      have := h.jumps k j t above found target
      omega
    · rw [List.getElem?_append_right (by omega)] at found
      obtain rfl := List.mem_singleton.mp (List.mem_of_getElem? found)
      have := own t target
      omega

theorem Confined.push_quiet {start : Nat} {code : List Instruction} (h : Confined start code)
    {i : Instruction}
    (quiet : i.target? = none) : Confined start (code ++ [i]) :=
  h.push fun t target => by cases quiet.symm.trans target

theorem invariant_confined (start : Nat) : Invariant fun code _ => Confined start code where
  fixed h fixed _ := h.push_quiet (Instruction.target?_of_goesOn (Bool.and_eq_true_iff.mp fixed).1)
  ret h := h.push_quiet rfl
  interned _ h := h
  named _ _ h goesOn _ := h.push_quiet (Instruction.target?_of_goesOn goesOn)
  reserved {code names op} h _ := h.push_quiet (by simp [Instruction.target?])
  patched {code names} offset h := by
    refine ⟨by simpa using h.start_le, ?_⟩
    intro k i t above found target
    rw [List.length_modify]
    rw [List.getElem?_modify] at found
    obtain ⟨j, here, rfl⟩ := Option.map_eq_some_iff.mp found
    by_cases same : offset = k
    · rw [if_pos same] at target
      cases (Instruction.target?_eq_some.mp target).2
      exact ⟨h.start_le, le_rfl⟩
    · rw [if_neg same] at target
      exact h.jumps k j t above here target
  back {code names earlier names'} before h grown := by
    refine h.push fun t target => ?_
    cases target
    exact ⟨before.start_le, grown.length_le⟩

/-- The tree that an entry point is made of. -/
def Source.fragment : Source → Fragment
  | .expression tree => .value tree
  | .statements body asBlock => .statement (.block (selected body asBlock))

theorem Source.segment_fragment (source : Source) : source.fragment.segment = source.segment := by
  cases source with
  | expression tree => rfl
  | statements body asBlock =>
    rw [fragment, Fragment.segment, Statement.segment]
    rfl

theorem Source.encloses {source : Source} {f : Fragment} {q : Nat}
    (occurs : source.fragment.Contains f q) :
    source.segment.Encloses q f.segment :=
  source.segment_fragment ▸ occurs.encloses

namespace CodeUnit

variable {u v w : CodeUnit} {source : Source} {start : Nat} {f : Fragment} {q : Nat}

theorem Extends.getElem?_of_lt (more : v.Extends w) {o : Nat} {i : Instruction}
    (below : o < v.length)
    (found : w.instructions[o]? = some i) : v.instructions[o]? = some i := by
  have here : v.instructions[o]? = some v.instructions[o] := Array.getElem?_eq_getElem below
  rw [here, ← more.getElem? here, found]

/-- No jump of the unit leads into the middle of a part of an entry point, unless it is in that
    part. -/
theorem Adds.apart (added : u.Adds source start v) (more : v.Extends w)
    (before : Confined 0 u.instructions.toList)
    (behind : Confined v.length w.instructions.toList) (occurs : source.fragment.Contains f q) :
    Apart w.instructions (start + q) (start + q + f.size) 0 w.length := by
  have stop_eq : v.length = start + source.segment.size + 1 := added.size_eq
  have encloses := Source.encloses occurs
  have within : q + f.size ≤ source.segment.size := encloses.within
  have earlier : Apart w.instructions (start + q) (start + q + f.size) 0 start := by
    intro p i t above below found target
    have old := more.getElem?_of_lt (by omega) found
    rw [added.getElem?_of_lt below, ← Array.getElem?_toList] at old
    have le : t ≤ u.length := (before.jumps p i t above old target).2
    have start_eq := added.start_eq
    right
    omega
  have own := encloses.apart (added.stands.1.mono fun _ _ => more.getElem?)
  have ret : Apart w.instructions (start + q) (start + q + f.size)
      (start + source.segment.size) v.length := by
    intro p i t above below found target
    obtain rfl : p = stopOf source start := by
      rw [stopOf]
      omega
    rw [more.getElem? added.stands.2] at found
    cases found
    cases target
  have later : Apart w.instructions (start + q) (start + q + f.size) v.length w.length := by
    intro p i t above below found target
    rw [← Array.getElem?_toList] at found
    have le := (behind.jumps p i t above found target).1
    right
    omega
  exact earlier.append (own.append (ret.append later))

theorem Adds.closedRegion (added : u.Adds source start v) (more : v.Extends w)
    (before : Confined 0 u.instructions.toList) (behind : Confined v.length w.instructions.toList)
    (occurs : source.fragment.Contains f q) :
    ClosedRegion w.instructions (start + q) (start + q + f.size) where
  inside o i above below found jumps := by
    have encloses := Source.encloses occurs
    have within : q + f.size ≤ source.segment.size := encloses.within
    have stop_eq : v.length = start + source.segment.size + 1 := added.size_eq
    obtain ⟨t, operand, -⟩ :=
      added.exists_target (by omega) (more.getElem?_of_lt (by omega) found) jumps
    have target : i.target? = some t := Instruction.target?_eq_some.mpr ⟨jumps, operand⟩
    obtain ⟨n, -, -, stands⟩ := encloses.stands (added.stands.1.mono fun _ _ => more.getElem?)
    exact ⟨t, target, f.segment.target_within stands above below found target⟩
  outside o i t elsewhere found target := by
    have inside : o < w.length := (Array.getElem?_eq_some_iff.mp found).1
    have apart := added.apart more before behind occurs o i t o.zero_le inside found target
    omega

/-- Each part of a tree that was compiled has its code in one piece, with its names among those that
    were added. It is what compiling the part writes there, and a closed region of the code of the
    unit, whatever was compiled before and after. In every run, when the value of a test leaves out
    a part, that part is not carried out before control has been at the end of the tree. -/
theorem compile_regions (settings : Settings) (calls : List (Source × Arena)) (source : Source)
    (arena : Arena) (later : List (Source × Arena)) (start : Nat) :
    let u := ({ settings } : CodeUnit).after calls
    (u.compile source arena).result = .ok start →
      let v := (u.compile source arena).unit
      let w := v.after later
      ∀ f q, source.fragment.Contains f q →
        let lo := start + q
        let hi := lo + f.size
        hi < v.length ∧
        (∃ n, u.pool.length ≤ n ∧ n + f.segment.names.length ≤ v.pool.length ∧
          let code := f.segment.place lo n
          code.length = f.size ∧ Stands w.instructions lo code ∧ Writes f.compile lo n code) ∧
        ClosedRegion w.instructions lo hi ∧
        ∀ test, f.test? = some test →
          ∀ m k r, Steps w.runnable k (entered m start) r → r.offset = lo + test.size →
            ∃ x rest, r.stack = .value x :: rest ∧ ∀ g p, Fragment.LeavesOut x f g p →
              source.fragment.Contains g (q + p) ∧
                r.Avoids w.runnable (lo + p) (lo + p + g.size) hi := by
  intro u accepted v w f q occurs lo hi
  have added := adds_of_compile_eq_ok accepted
  have more : v.Extends w := v.after_extends later
  have fresh : Confined 0 ({ settings } : CodeUnit).instructions.toList := confined_length []
  have before : Confined 0 u.instructions.toList :=
    after_maintains (invariant_confined 0) fresh calls
  have behind : Confined v.length w.instructions.toList :=
    after_maintains (invariant_confined v.length) (confined_length v.instructions.toList) later
  have encloses := Source.encloses occurs
  have pool : v.pool.length = u.pool.length + source.segment.names.length := by
    rw [added.names, List.length_append]
  obtain ⟨n, low, high, stands⟩ := encloses.stands (added.stands.1.mono fun _ _ => more.getElem?)
  refine ⟨?_, ⟨n, low, high.trans_eq pool.symm, f.segment.length_place _ _, stands,
    f.writes_segment _ _⟩, added.closedRegion more before behind occurs, ?_⟩
  · have stop_eq : v.length = start + source.segment.size + 1 := added.size_eq
    have within : q + f.size ≤ source.segment.size := encloses.within
    omega
  · intro test tested m k r steps here
    obtain ⟨shape, shaped⟩ := added.exists_shaped
    have shaped' : Shaped w.runnable.instructions shape start (stopOf source start) :=
      shaped.mono fun _ _ => more.getElem?
    have begins := shaped.fits_entered (Nat.le_add_right _ _) m
    have fits := (run_keeps shaped'.next_fits begins).1 k r steps
    obtain ⟨i, found, takes⟩ := Fragment.exists_jump_of_test? tested stands
    rw [← here] at found
    obtain ⟨x, rest, stack⟩ := shaped'.exists_value fits found takes
    refine ⟨x, rest, stack, ?_⟩
    intro g p out
    refine ⟨occurs.inside out.holds, ?_⟩
    obtain ⟨m', stack', o⟩ := r
    subst stack here
    exact out.avoids tested stands

/-- Room for one more choice of a name, but not for all of it. -/
def narrow : Settings :=
  { allowEscape := false, maxInstructions := some 20 }

/-- Nothing is called, since the left side is `null`. -/
def guardedCall : Expression :=
  .logical .and (.literal .null) (.call (.name "f") [])

/-- A choice with the guarded call as its test, and another choice in it. -/
def guardedChoice : Source :=
  .statements [.ifElse guardedCall (.expression (.name "a"))
    (some (.expression (.conditional (.name "b") (.name "c") (.name "d"))))] true

/-- The call stands between two entry points, of which the second is not complete. -/
theorem compile_regions_guardedChoice :
    let u := ({ settings := narrow } : CodeUnit).after [(eitherName, {})]
    let v := (u.compile guardedChoice {}).unit
    let w := v.after failingCalls
    (u.compile guardedChoice {}).result = .ok 4 ∧
      v.answers failingCalls = [.error .needsWalker, .error (.outOfMemory .instructions)] ∧
      ClosedRegion w.instructions 4 8 ∧
      ∀ m, ∃ r, Steps w.runnable 1 (entered m 4) r ∧ r.Avoids w.runnable 6 8 8 := by
  have accepted : ((({ settings := narrow } : CodeUnit).after [(eitherName, {})]).compile
      guardedChoice {}).result = .ok 4 := by decide +kernel
  have answered : ((({ settings := narrow } : CodeUnit).after [(eitherName, {})]).compile
      guardedChoice {}).unit.answers failingCalls =
        [.error .needsWalker, .error (.outOfMemory .instructions)] := by decide +kernel
  have occurs : guardedChoice.fragment.Contains (.value guardedCall) 0 :=
    .inside (q := 0) (k := 0) (.inside (q := 0) (k := 0) .refl .here) .here
  have whole : Fragment.size (.value guardedCall) = 4 := rfl
  have call : Fragment.size (.value (.call (.name "f") [])) = 2 := rfl
  have test : Fragment.size (.value (.literal .null)) = 1 := rfl
  obtain ⟨-, ⟨n, -, -, -, stands, -⟩, region, runs⟩ :=
    compile_regions narrow [(eitherName, {})] guardedChoice {} failingCalls 4 accepted
      (.value guardedCall) 0 occurs
  dsimp only at region runs ⊢
  rw [whole] at region runs
  generalize (((({ settings := narrow } : CodeUnit).after [(eitherName, {})]).compile
    guardedChoice {}).unit.after failingCalls) = w at stands region runs ⊢
  refine ⟨accepted, answered, region, fun m => ?_⟩
  have next : Step.next w.runnable ⟨m, [], 4⟩ = .ok () ⟨m, [.value .null], 5⟩ := by
    have pushes : w.instructions[4]? = some { op := .pushNull } := stands.1
    rw [Step.next_eq pushes]
    rfl
  obtain ⟨x, rest, stack, leaves⟩ := runs _ rfl m 1 _ (steps_one next) (by rw [test])
  cases stack
  obtain ⟨-, avoids⟩ := leaves _ _ (.right rfl)
  rw [call, test] at avoids
  exact ⟨_, steps_one next, avoids⟩

end CodeUnit

end StackScript
