import StackScript.Proofs.Machine.Steps
import StackScript.Proofs.Segment.Flow

/-!
# Control in a run

A step goes where control can flow from its instruction, whatever is on the stack. So what is told
of a region by its jumps alone holds of every run: from the moment when a test has chosen one part
of the code, the other part is not entered until control has been at the end of both.
-/

namespace StackScript

namespace Step

variable {α : Type} {code : Runnable} {i : Instruction} {r r' : Running}

theorem Steady.offset_eq {step : Step α} (steady : Steady step) {a : α} (h : step r = .ok a r') :
    r'.offset = r.offset := by
  have moved : step r = move r.offset (step r) := steady.moves r r.offset
  rw [h] at moved
  injection moved with _ same
  rw [same]
  rfl

/-- If the step goes on, then where it was or at the target of the instruction. -/
def MayJump (i : Instruction) (step : Step Unit) : Prop :=
  ∀ r r', step r = .ok () r' → r'.offset = r.offset ∨ i.target? = some r'.offset

theorem Steady.mayJump {step : Step Unit} (steady : Steady step) : MayJump i step :=
  fun _ _ h => .inl (steady.offset_eq h)

theorem Steady.mayJump_bind {step : Step α} {rest : α → Step Unit} (steady : Steady step)
    (h : ∀ a, MayJump i (rest a)) : MayJump i (step >>= rest) := by
  intro r r' done
  simp only [Bind.bind, EStateM.bind] at done
  cases first : step r with
  | error stop mid =>
    rw [first] at done
    cases done
  | ok a mid =>
    rw [first] at done
    rw [← steady.offset_eq first]
    exact h a mid r' done

theorem target_of_jump (h : jump i r = .ok () r') : i.target? = some r'.offset := by
  unfold jump at h
  cases target : i.target? with
  | none =>
    rw [target] at h
    cases h
  | some t =>
    rw [target] at h
    cases h
    rfl

theorem mayJump_jump : MayJump i (jump i) :=
  fun _ _ h => .inr (target_of_jump h)

theorem mayJump_jumpOrPop (truth : Bool) : MayJump i (jumpOrPop i truth) := by
  refine steady_peek.mayJump_bind fun slot => (steady_asValue slot).mayJump_bind fun value => ?_
  split
  · exact mayJump_jump
  · exact (steady_pop.bind fun _ => steady_pure ()).mayJump

theorem mayJump_jumpIfFalse : MayJump i (do if !(← popValue).truthy then jump i) := by
  refine steady_popValue.mayJump_bind fun value => ?_
  split
  · exact mayJump_jump
  · exact (steady_pure ()).mayJump

theorem execute_ret_ne_ok (hop : i.op = .ret) : execute code i r ≠ .ok () r' := by
  obtain ⟨m, stack, o⟩ := r
  unfold execute
  rw [hop]
  match stack with
  | [] => nofun
  | [.value v] => nofun
  | [.reference _] => nofun
  | _ :: _ :: _ => nofun

/-- A step goes where control can flow. -/
theorem flows_of_next (h : next code r = .ok () r') :
    Flows code.instructions r.offset r'.offset := by
  obtain ⟨m, stack, o⟩ := r
  cases found : code.instructions[o]? with
  | none =>
    rw [next_outside found] at h
    cases h
  | some i =>
    rw [next_eq found] at h
    have mayJump (stays : i.op ≠ .ret) (falls : i.op ≠ .jump) (step : MayJump i (execute code i)) :
        Flows code.instructions o r'.offset := by
      rcases step _ _ h with onward | target
      · rw [onward]
        exact .onward found stays falls
      · exact .jump found target
    cases hop : i.op with
    | jump =>
      unfold execute at h
      rw [hop] at h
      exact .jump found (target_of_jump h)
    | jumpIfFalse =>
      apply mayJump (by simp [hop]) (by simp [hop])
      unfold execute
      rw [hop]
      exact mayJump_jumpIfFalse
    | jumpIfFalseOrPop | jumpIfTrueOrPop =>
      apply mayJump (by simp [hop]) (by simp [hop])
      unfold execute
      rw [hop]
      exact mayJump_jumpOrPop _
    | ret => exact absurd h (execute_ret_ne_ok hop)
    | _ =>
      exact mayJump (by simp [hop]) (by simp [hop]) (steady_execute code (by rw [hop]; rfl)).mayJump

end Step

namespace Running

variable {code : Runnable} {r mid : Running} {lo hi stop : Nat}

/-- From here on control is not between `lo` and `hi` before it has been at `stop`. -/
def Avoids (code : Runnable) (r : Running) (lo hi stop : Nat) : Prop :=
  ∀ k r', Steps code k r r' → lo ≤ r'.offset → r'.offset < hi →
    ∃ j < k, ∃ mid, Steps code j r mid ∧ mid.offset = stop

theorem Avoids.mono {lo' hi' stop' : Nat} (h : r.Avoids code lo hi stop) (above : lo ≤ lo')
    (below : hi' ≤ hi)
    (same : stop = stop') : r.Avoids code lo' hi' stop' :=
  fun k r' steps above' below' => same ▸ h k r' steps (by omega) (by omega)

/-- What holds one step later. -/
theorem Avoids.of_next (next : Step.next code r = .ok () mid)
    (outside : r.offset < lo ∨ hi ≤ r.offset)
    (h : mid.Avoids code lo hi stop) : r.Avoids code lo hi stop := by
  intro k r' steps above below
  cases k with
  | zero =>
    obtain rfl : r' = r := steps
    omega
  | succ k =>
    obtain ⟨mid', next', rest⟩ := steps
    rw [next] at next'
    cases next'
    obtain ⟨j, lt, last, before, reached⟩ := h k r' rest above below
    exact ⟨j + 1, Nat.succ_lt_succ lt, last, ⟨mid, next, before⟩, reached⟩

/-- Control is in a part of the code that can be left at `stop` only, or is there already. -/
theorem avoids_of_closed {P : Nat → Prop}
    (closed : ∀ p q, P p → Flows code.instructions p q → P q ∨ q = stop)
    (outside : ∀ p, P p → p < lo ∨ hi ≤ p) (behind : hi ≤ stop)
    (inside : P r.offset ∨ r.offset = stop) :
    r.Avoids code lo hi stop := by
  intro k
  induction k generalizing r with
  | zero =>
    intro r' steps above below
    obtain rfl : r' = r := steps
    rcases inside with inside | here
    · have := outside _ inside
      omega
    · omega
  | succ k ih =>
    intro r' steps above below
    rcases inside with inside | here
    · obtain ⟨mid, next, rest⟩ := steps
      have inside' := closed _ _ inside (Step.flows_of_next next)
      obtain ⟨j, lt, last, before, reached⟩ := ih inside' r' rest above below
      exact ⟨j + 1, Nat.succ_lt_succ lt, last, ⟨mid, next, before⟩, reached⟩
    · exact ⟨0, k.succ_pos, r, rfl, here⟩

/-! ## What a test leaves out -/

open Segment

variable {a b : Segment} {m : Machine} {v : Value} {rest : List Slot} {o n : Nat}

/-- A value that decides is kept, and the body is skipped. -/
theorem avoids_skipped {operator : LogicalOperator}
    (stands : Stands code.instructions o ((skip operator a).place o n))
    (decides : operator.decides v = true) :
    Avoids code ⟨m, .value v :: rest, o⟩ (o + 1) (o + 1 + a.size) (o + 1 + a.size) := by
  have next := Step.next_skip (m := m) (v := v) operator (stands_skip.mp stands).1 rest
  rw [if_pos decides] at next
  refine .of_next next (.inl o.lt_succ_self) ?_
  exact avoids_of_closed (P := fun _ => False) (fun _ _ none => none.elim)
    (fun _ none => none.elim) le_rfl (.inr rfl)

theorem avoids_alternate {keeps : Bool}
    (stands : Stands code.instructions o ((branch keeps a b).place o n))
    (holds : v.truthy = true) :
    Avoids code ⟨m, .value v :: rest, o⟩ (o + 1 + a.size + 1) (o + 1 + a.size + 1 + b.size)
      (o + 1 + a.size + 1 + b.size) := by
  obtain ⟨test, consequent, jump, alternate⟩ := stands_branch.mp stands
  have next := Step.next_branch (m := m) (v := v) keeps test rest
  rw [if_pos holds] at next
  refine .of_next next (.inl (by show o < _; omega)) ?_
  -- The consequent, and the jump behind it.
  apply avoids_of_closed (P := fun p => o + 1 ≤ p ∧ p ≤ o + 1 + a.size)
  · intro p q inside flows
    by_cases last : p = o + 1 + a.size
    · subst last
      rcases eq_or_of_flows_jumpTo jump flows with onward | reached
      · exact absurd rfl onward.2
      · exact .inr reached
    · exact .inl (a.flows_within consequent inside.1 (by omega) flows)
  · omega
  · exact le_rfl
  · exact .inl ⟨le_rfl, Nat.le_add_right _ _⟩

theorem avoids_consequent {keeps : Bool}
    (stands : Stands code.instructions o ((branch keeps a b).place o n))
    (fails : v.truthy = false) :
    Avoids code ⟨m, .value v :: rest, o⟩ (o + 1) (o + 1 + a.size)
      (o + 1 + a.size + 1 + b.size) := by
  obtain ⟨test, consequent, jump, alternate⟩ := stands_branch.mp stands
  have next := Step.next_branch (m := m) (v := v) keeps test rest
  rw [if_neg (Bool.eq_false_iff.mp fails)] at next
  refine .of_next next (.inl o.lt_succ_self) ?_
  apply avoids_of_closed (P := fun p => o + 1 + a.size + 1 ≤ p ∧ p < o + 1 + a.size + 1 + b.size)
  · intro p q inside flows
    have := b.flows_within alternate inside.1 inside.2 flows
    omega
  · omega
  · omega
  · dsimp only
    omega

end Running

end StackScript
