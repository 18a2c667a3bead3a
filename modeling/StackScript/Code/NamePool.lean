import StackScript.Code.Region

/-!
# Names

The names that code refers to, in the order in which they were added. A name that is added twice has
two places.
-/

namespace StackScript

/-- The names that code refers to by their places, and the room that there is for them. -/
structure NamePool where
  entries : Array String
  capacity : Nat
  deriving DecidableEq, Repr

namespace NamePool

/-- The capacity of a pool for which none is asked. -/
def defaultCapacity : Nat := 8

/-- An empty pool with room for at least one name. -/
def create (capacity : Nat) : Except Region NamePool :=
  if entryBound ≤ max capacity 1 then .error .names else .ok ⟨#[], max capacity 1⟩

theorem create_eq_ok {capacity : Nat} {p : NamePool} :
    create capacity = .ok p ↔ max capacity 1 < entryBound ∧ p = ⟨#[], max capacity 1⟩ := by
  by_cases large : entryBound ≤ max capacity 1
  · simp only [create, if_pos large, Nat.not_lt.mpr large, false_and, reduceCtorEq]
  · simp only [create, if_neg large, Nat.lt_of_not_le large, true_and, Except.ok.injEq, eq_comm]

/-- The number of names. -/
def length (p : NamePool) : Nat :=
  p.entries.size

/-- The name at a place. -/
def get? (p : NamePool) (index : Nat) : Option String :=
  p.entries[index]?

/-- The pool has to grow before the next name. -/
def isFull (p : NamePool) : Bool :=
  p.length == p.capacity

/-- The pool is full, and can be doubled. -/
def grows (p : NamePool) : Bool :=
  p.isFull && 2 * p.capacity < entryBound

/-- Another name can be had, and its place fits a word. -/
def hasRoom (p : NamePool) : Bool :=
  (!p.isFull || 2 * p.capacity < entryBound) && p.length < wordBound

/-- The growth that the next name brings about. -/
def growth? (p : NamePool) : Option Event :=
  if p.grows then some (.grewNames p.capacity (2 * p.capacity)) else none

/-- The pool after it was asked for room for another name. This comes before the place of the name
    is looked at, so that a pool with a name in every place still grows when it is full. -/
def makeRoom (p : NamePool) : NamePool :=
  if p.grows then { p with capacity := 2 * p.capacity } else p

/-- The pool with one more name, whose place is the pool's length before. -/
def push (p : NamePool) (text : String) : NamePool :=
  let capacity := if p.isFull then 2 * p.capacity else p.capacity
  { entries := p.entries.push text, capacity }

end NamePool

end StackScript
