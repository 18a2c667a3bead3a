import StackScript.Proofs.Meaning.Compiled

/-!
# How runs end

A run that ends takes a number of steps. With fewer steps it is cut short, and with more it ends in
the same way. A source fixes how the runs of its code end, wherever the code stands: sources that
mean the same end in the same way, or neither of them ends.
-/

namespace StackScript

namespace Running

variable {code : Runnable} {k steps budget : Nat} {r : Running} {e : Ended}

/-- The run takes the number of steps, and ends like this. -/
structure EndsAfter (code : Runnable) (r : Running) (steps : Nat) (e : Ended) : Prop where
  real : e.stop ≠ .fault .outOfSteps
  ends : ∀ budget, steps ≤ budget → r.run code budget = e
  cut : ∀ budget, budget < steps → (r.run code budget).stop = .fault .outOfSteps

theorem Halts.endsAfter (h : Halts code k r e) (real : e.stop ≠ .fault .outOfSteps) :
    EndsAfter code r (k + 1) e where
  real := real
  ends budget le := run_of_halts h le
  cut budget lt := by
    obtain ⟨r', -, steps, -⟩ := h
    exact run_of_steps_of_le steps (Nat.le_of_lt_succ lt)

/-- There is one end for all runs that are not cut short. -/
theorem EndsAfter.run_eq (h : EndsAfter code r steps e)
    (real : (r.run code budget).stop ≠ .fault .outOfSteps) : r.run code budget = e := by
  by_cases enough : steps ≤ budget
  · exact h.ends budget enough
  · exact absurd (h.cut budget (Nat.lt_of_not_le enough)) real

theorem EndsAfter.exists_uncut (h : EndsAfter code r steps e) :
    ∃ budget, (r.run code budget).stop ≠ .fault .outOfSteps := by
  refine ⟨steps, ?_⟩
  rw [h.ends steps (Nat.le_refl steps)]
  exact h.real

/-- Runs that do the same with any number of steps end in the same step. -/
theorem EndsAfter.of_run_eq {code' : Runnable} {r' : Running} (h : EndsAfter code r steps e)
    (alike : ∀ budget, r'.run code' budget = r.run code budget) : EndsAfter code' r' steps e where
  real := h.real
  ends budget le := (alike budget).trans (h.ends budget le)
  cut budget lt := (congrArg Ended.stop (alike budget)).trans (h.cut budget lt)

end Running

namespace Evaluate

variable {α β : Type} {x : Evaluate α} {f : α → Evaluate β} {m m' : Machine}

theorem bind_of_eq_ok {a : α} (h : x m = .ok a m') : (x >>= f) m = f a m' := by
  change EStateM.bind x f m = f a m'
  rw [EStateM.bind, h]

theorem bind_of_eq_error {stop : Stop} (h : x m = .error stop m') :
    (x >>= f) m = .error stop m' := by
  change EStateM.bind x f m = .error stop m'
  rw [EStateM.bind, h]

theorem get_bind (f : Machine → Evaluate β) (m : Machine) : (get >>= f) m = f m m :=
  rfl

end Evaluate

namespace CodeUnit

open Evaluate Running

variable {u u' v v' : CodeUnit} {source source' : Source} {start start' budget : Nat}

/-- A run that is not cut short ends as evaluation does with as many rounds as there were steps. -/
theorem Adds.ended_eq_run (added : u.Adds source start v) (m : Machine)
    (real : ((entered m start).run v.runnable budget).stop ≠ .fault .outOfSteps) :
    (source.eval budget).ended m = (entered m start).run v.runnable budget := by
  rcases added.halts_or_exhausts budget m with ⟨ended, k, -, halts⟩ | ⟨-, -, k, r, enough, steps⟩
  · exact ((halts.endsAfter ended).run_eq real).symm
  · exact absurd (run_of_steps_of_le steps enough) real

/-- Evaluation with enough rounds ends as the run does. -/
theorem Adds.ended_eq_of_endsAfter (added : u.Adds source start v) {m : Machine} {steps : Nat}
    {e : Ended} (ends : EndsAfter v.runnable (entered m start) steps e) (enough : steps ≤ budget) :
    (source.eval budget).ended m = e := by
  have run := ends.ends budget enough
  have real := ends.real
  rw [← run] at real
  exact (added.ended_eq_run m real).trans run

/-- Where evaluation ends, the run ends. -/
theorem Adds.exists_endsAfter (added : u.Adds source start v) (m : Machine) {fuel : Nat}
    (real : ((source.eval fuel).ended m).stop ≠ .fault .outOfSteps) :
    ∃ steps, EndsAfter v.runnable (entered m start) steps ((source.eval fuel).ended m) := by
  rcases added.halts_or_exhausts fuel m with ⟨-, k, -, halts⟩ | ⟨stop, -⟩
  · exact ⟨k + 1, halts.endsAfter real⟩
  · exact absurd stop real

/-- Code without loops ends, and takes no more steps than it has instructions. -/
theorem Adds.endsAfter_of_isStraight (added : u.Adds source start v)
    (straight : source.segment.isStraight = true) (m : Machine) :
    ∃ steps, steps ≤ v.length - start ∧
      EndsAfter v.runnable (entered m start) steps ((source.eval 0).ended m) := by
  rcases added.halts_or_exhausts 0 m with ⟨real, k, bound, halts⟩ | ⟨-, loops, -⟩
  · refine ⟨k + 1, ?_, halts.endsAfter real⟩
    have size : v.length = stopOf source start + 1 := added.size_eq
    have := bound straight
    rw [size, stopOf]
    omega
  · rw [straight] at loops
    cases loops

/-- If one of two sources that mean the same ends, then the other does, and in the same way. -/
theorem Adds.endsAfter_of_eval_eq (added : u.Adds source start v)
    (added' : u'.Adds source' start' v') (same : ∀ fuel, source'.eval fuel = source.eval fuel)
    (m : Machine) (real : ((entered m start).run v.runnable budget).stop ≠ .fault .outOfSteps) :
    ∃ steps, EndsAfter v'.runnable (entered m start') steps
      ((entered m start).run v.runnable budget) := by
  have ended := added.ended_eq_run m real
  rw [← same budget] at ended
  rw [← ended] at real ⊢
  exact added'.exists_endsAfter m real

end CodeUnit

end StackScript
