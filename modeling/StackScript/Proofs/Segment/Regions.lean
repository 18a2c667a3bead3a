import StackScript.Proofs.Segment.Compiled
import StackScript.Proofs.Segment.Flow

/-!
# Regions

Each part of a tree that has code of its own has it in one piece, a region of the code of the tree:
the jumps of the region stay inside or lead to its end, and no other jump leads into its middle. A
part of a part is a region as well, so it is enough to say, for each kind of tree, which parts its
code is made of.
-/

namespace StackScript

/-- No jump between `a` and `b` leads into the middle of the region from `lo` to `hi`, unless it is
    in the region. -/
def Apart (code : Array Instruction) (lo hi a b : Nat) : Prop :=
  ∀ p i t, a ≤ p → p < b → code[p]? = some i → i.target? = some t → (lo ≤ p ∧ p < hi) ∨
    t ≤ lo ∨ hi ≤ t

section Apart

variable {code : Array Instruction} {lo hi a b c p t : Nat}

theorem apart_self : Apart code lo hi lo hi :=
  fun _ _ _ above below _ _ => .inl ⟨above, below⟩

/-- Two stretches of code, one behind the other. -/
theorem Apart.append (first : Apart code lo hi a b) (second : Apart code lo hi b c) :
    Apart code lo hi a c := by
  intro p i t above below found target
  by_cases before : p < b
  · exact first p i t above before found target
  · exact second p i t (by omega) below found target

/-- A region inside of a region. -/
theorem Apart.inner {lo' hi' : Nat} (outer : Apart code lo hi a b)
    (inner : Apart code lo' hi' lo hi) (above : lo ≤ lo')
    (below : hi' ≤ hi) : Apart code lo' hi' a b := by
  intro p i t from_a to_b found target
  rcases outer p i t from_a to_b found target with inside | outside
  · exact inner p i t inside.1 inside.2 found target
  · right
    omega

/-- A jump that leads past the region. -/
theorem apart_jumpTo {op : Op} (found : code[p]? = some (.jumpTo op t))
    (outside : t ≤ lo ∨ hi ≤ t) :
    Apart code lo hi p (p + 1) := by
  intro q i t' above below found' target
  obtain rfl : q = p := by omega
  obtain rfl : .jumpTo op t = i := Option.some.inj (found.symm.trans found')
  obtain rfl : t = t' := by
    simpa [Instruction.jumpTo] using (Instruction.target?_eq_some.mp target).2
  exact .inr outside

/-- The jumps of a segment that stands before the region or behind it. -/
theorem Segment.apart (s : Segment) {o n : Nat} (stands : Stands code o (s.place o n))
    (outside : o + s.size ≤ lo ∨ hi ≤ o) : Apart code lo hi o (o + s.size) := by
  intro p i t above below found target
  have within := s.target_within stands above below found target
  right
  omega

end Apart

namespace Segment

/-- Wherever the first segment stands, the second one stands `k` instructions further on, as a
    region of the first. -/
structure Encloses (s : Segment) (k : Nat) (a : Segment) : Prop where
  within : k + a.size ≤ s.size
  stands : ∀ {code o n}, Stands code o (s.place o n) →
    a.Placed code (o + k) n (n + s.names.length)
  apart : ∀ {code o n}, Stands code o (s.place o n) →
    Apart code (o + k) (o + k + a.size) o (o + s.size)

variable {a b x : Segment} {k : Nat}

theorem add_size_branch (o : Nat) (keeps : Bool) :
    o + (branch keeps a b).size = o + 1 + a.size + 1 + b.size := by
  rw [size]
  omega

theorem add_size_cycle (o : Nat) : o + (cycle a b).size = o + a.size + 1 + b.size + 1 := by
  rw [size]
  omega

theorem Encloses.refl (s : Segment) : s.Encloses 0 s where
  within := by omega
  stands h := placed_self h
  apart _ := apart_self

/-- A region of a region. -/
theorem Encloses.trans {j : Nat} (outer : b.Encloses k a) (inner : a.Encloses j x) :
    b.Encloses (k + j) x where
  within := by
    have := outer.within
    have := inner.within
    omega
  stands h := by
    obtain ⟨n, low, high, here⟩ := outer.stands h
    rw [← Nat.add_assoc]
    exact (inner.stands here).mono low high
  apart {code o n} h := by
    obtain ⟨n', -, -, here⟩ := outer.stands h
    have within := inner.within
    rw [← Nat.add_assoc]
    exact (outer.apart h).inner (inner.apart here) (by omega) (by omega)

/-- A region of the first of two segments. -/
theorem Encloses.first (h : a.Encloses k x) : (a.seq b).Encloses k x where
  within := by
    have := h.within
    rw [size]
    omega
  stands whole := by
    rw [names, List.length_append]
    exact (h.stands (stands_seq.mp whole).1).mono (by omega) (by omega)
  apart {code o n} whole := by
    obtain ⟨first, second⟩ := stands_seq.mp whole
    have within := h.within
    rw [size, ← Nat.add_assoc]
    exact (h.apart first).append (b.apart second (by omega))

/-- A region of the second, which stands behind the first. -/
theorem Encloses.second (h : b.Encloses k x) : (a.seq b).Encloses (a.size + k) x where
  within := by
    have := h.within
    rw [size]
    omega
  stands whole := by
    rw [← Nat.add_assoc, names, List.length_append]
    exact (h.stands (stands_seq.mp whole).2).mono (by omega) (by omega)
  apart {code o n} whole := by
    obtain ⟨first, second⟩ := stands_seq.mp whole
    rw [size, ← Nat.add_assoc, ← Nat.add_assoc]
    exact (a.apart first (by omega)).append (h.apart second)

/-- A region of a body that may be skipped; the jump leads past the body. -/
theorem Encloses.skipped {operator : LogicalOperator} (h : a.Encloses k x) :
    (skip operator a).Encloses (1 + k) x where
  within := by
    have := h.within
    rw [size]
    omega
  stands whole := by
    rw [← Nat.add_assoc]
    exact h.stands (stands_skip.mp whole).2
  apart {code o n} whole := by
    obtain ⟨jump, body⟩ := stands_skip.mp whole
    have within := h.within
    rw [size, Nat.add_comm a.size, ← Nat.add_assoc, ← Nat.add_assoc]
    exact (apart_jumpTo jump (by omega)).append (h.apart body)

/-- A region of the consequent of a choice. -/
theorem Encloses.consequent {keeps : Bool} (h : a.Encloses k x) :
    (branch keeps a b).Encloses (1 + k) x where
  within := by
    have := h.within
    rw [size]
    omega
  stands whole := by
    rw [← Nat.add_assoc, names, List.length_append]
    exact (h.stands (stands_branch.mp whole).2.1).mono (by omega) (by omega)
  apart {code o n} whole := by
    obtain ⟨test, consequent, jump, alternate⟩ := stands_branch.mp whole
    have within := h.within
    rw [add_size_branch, ← Nat.add_assoc]
    exact (apart_jumpTo test (by omega)).append ((h.apart consequent).append
      ((apart_jumpTo jump (by omega)).append (b.apart alternate (by omega))))

/-- A region of the alternate, which stands behind both jumps. -/
theorem Encloses.alternate {keeps : Bool} (h : b.Encloses k x) :
    (branch keeps a b).Encloses (1 + a.size + 1 + k) x where
  within := by
    have := h.within
    rw [size]
    omega
  stands whole := by
    rw [← Nat.add_assoc, ← Nat.add_assoc, ← Nat.add_assoc, names, List.length_append]
    exact (h.stands (stands_branch.mp whole).2.2.2).mono (by omega) (by omega)
  apart {code o n} whole := by
    obtain ⟨test, consequent, jump, alternate⟩ := stands_branch.mp whole
    have within := h.within
    rw [add_size_branch, ← Nat.add_assoc, ← Nat.add_assoc, ← Nat.add_assoc]
    exact (apart_jumpTo test (by omega)).append ((a.apart consequent (by omega)).append
      ((apart_jumpTo jump (by omega)).append (h.apart alternate)))

/-- A region of the test of a loop; the jump back leads to the beginning of the test. -/
theorem Encloses.test (h : a.Encloses k x) : (cycle a b).Encloses k x where
  within := by
    have := h.within
    rw [size]
    omega
  stands whole := by
    rw [names, List.length_append]
    exact (h.stands (stands_cycle.mp whole).1).mono (by omega) (by omega)
  apart {code o n} whole := by
    obtain ⟨test, leave, body, again⟩ := stands_cycle.mp whole
    have within := h.within
    rw [add_size_cycle]
    exact (h.apart test).append ((apart_jumpTo leave (by omega)).append
      ((b.apart body (by omega)).append (apart_jumpTo again (by omega))))

/-- A region of the body of a loop. -/
theorem Encloses.body (h : b.Encloses k x) : (cycle a b).Encloses (a.size + 1 + k) x where
  within := by
    have := h.within
    rw [size]
    omega
  stands whole := by
    rw [← Nat.add_assoc, ← Nat.add_assoc, names, List.length_append]
    exact (h.stands (stands_cycle.mp whole).2.2.1).mono (by omega) (by omega)
  apart {code o n} whole := by
    obtain ⟨test, leave, body, again⟩ := stands_cycle.mp whole
    have within := h.within
    rw [add_size_cycle, ← Nat.add_assoc, ← Nat.add_assoc]
    exact (a.apart test (by omega)).append ((apart_jumpTo leave (by omega)).append
      ((h.apart body).append (apart_jumpTo again (by omega))))

/-- A region of a loop without a test. -/
theorem Encloses.round (h : a.Encloses k x) : (forever a).Encloses k x where
  within := by
    have := h.within
    rw [size]
    omega
  stands whole := h.stands (stands_forever.mp whole).1
  apart {code o n} whole := by
    obtain ⟨body, again⟩ := stands_forever.mp whole
    rw [size, ← Nat.add_assoc]
    exact (h.apart body).append (apart_jumpTo again (by omega))

end Segment

end StackScript
