import StackScript.Proofs.Segment.Names
import StackScript.Proofs.Unit.Escapes
import StackScript.Proofs.Unit.Invariant

/-!
# The names of a unit

A name and the instruction that refers to it are added in two steps, and the pool is not cut back
when code is. Still, at every time each instruction refers to a name of its own, which is there, and
names are referred to in the order in which they were added.
-/

namespace StackScript

/-- Names are referred to in the order of the pool, each at most once, and they are in the pool. -/
structure Ordered (code : List Instruction) (names : List String) : Prop where
  increasing : (code.flatMap Instruction.handles).Pairwise (· < ·)
  below : ∀ k ∈ code.flatMap Instruction.handles, k < names.length

namespace Ordered

variable {code : List Instruction} {names : List String}

theorem nameless (h : Ordered code names) {i : Instruction} (none : i.handles = []) :
    Ordered (code ++ [i]) names := by
  have same : (code ++ [i]).flatMap Instruction.handles = code.flatMap Instruction.handles := by
    rw [List.flatMap_append, List.flatMap_singleton, none, List.append_nil]
  constructor
  · rw [same]
    exact h.increasing
  · rw [same]
    exact h.below

theorem interned (h : Ordered code names) (text : String) : Ordered code (names ++ [text]) where
  increasing := h.increasing
  below k mem := by
    rw [List.length_append]
    exact Nat.lt_add_right 1 (h.below k mem)

theorem named (h : Ordered code names) {i : Instruction} (last : i.handles = [names.length])
    (text : String) :
    Ordered (code ++ [i]) (names ++ [text]) := by
  have grown : (code ++ [i]).flatMap Instruction.handles =
      code.flatMap Instruction.handles ++ [names.length] := by
    rw [List.flatMap_append, List.flatMap_singleton, last]
  constructor
  · rw [grown, List.pairwise_append]
    refine ⟨h.increasing, List.pairwise_singleton _ _, ?_⟩
    intro k old k' new
    rw [List.mem_singleton.mp new]
    exact h.below k old
  · rw [grown, List.forall_mem_append, List.forall_mem_singleton]
    refine ⟨(h.interned text).below, ?_⟩
    rw [List.length_append]
    exact Nat.lt_succ_self _

end Ordered

/-- An instruction that gets another first operand may lose a name by that, but gains none. -/
theorem flatMap_handles_modify (code : List Instruction) (offset t : Nat) :
    ((code.modify offset fun i => { i with operand := some (.jump t) }).flatMap
      Instruction.handles).Sublist
      (code.flatMap Instruction.handles) := by
  induction code generalizing offset with
  | nil => rw [List.modify_nil]
  | cons i code ih =>
    cases offset with
    | zero =>
      simp only [List.modify_zero_cons, List.flatMap_cons]
      exact (List.sublist_append_right _ _).append_right _
    | succ offset =>
      simp only [List.modify_succ_cons, List.flatMap_cons]
      exact (ih offset).append_left _

theorem invariant_ordered : Invariant Ordered where
  fixed h _ none := h.nameless none
  ret h := h.nameless rfl
  interned text h := h.interned text
  named text extra h _ none := h.named (by simp [Instruction.handles, none, Operand.handle?]) text
  reserved h _ := h.nameless rfl
  patched offset h :=
    have fewer := flatMap_handles_modify _ offset _
    ⟨h.increasing.sublist fewer, fun k mem => h.below k (fewer.subset mem)⟩
  back _ h _ := h.nameless rfl

namespace CodeUnit

variable {u v : CodeUnit} {tree : Expression} {start : Nat}

/-- The places of the names that the code of the unit refers to, in the order of the
    instructions. -/
def handles (u : CodeUnit) : List Nat :=
  u.instructions.toList.flatMap Instruction.handles

theorem name?_eq (u : CodeUnit) (k : Nat) : u.name? k = u.pool[k]? := by
  unfold name? pool
  cases u.names with
  | none => rfl
  | some names => exact (Array.getElem?_toList ..).symm

/-- An entry point refers to the names that came with it, one after the other. -/
theorem Adds.handles_eq (added : u.Adds (.expression tree) start v) :
    (v.instructions.toList.drop start).flatMap Instruction.handles =
      List.range' u.pool.length tree.names.length := by
  rw [added.drop_start, entry, List.flatMap_append]
  show (tree.segment.place _ _).flatMap Instruction.handles ++ [] = _
  rw [tree.refers.handles, List.append_nil]

theorem Adds.map_name?_handles (added : u.Adds (.expression tree) start v) :
    ((v.instructions.toList.drop start).flatMap Instruction.handles).map v.name? =
      tree.names.map some := by
  have pool : v.pool = u.pool ++ tree.names := tree.refers.names ▸ added.names
  rw [added.handles_eq]
  apply List.ext_getElem
  · simp
  intro k inside inside'
  rw [List.length_map] at inside'
  rw [List.getElem_map, List.getElem_map, List.getElem_range', name?_eq, pool, Nat.one_mul,
    List.getElem?_append_right (Nat.le_add_right _ _), Nat.add_sub_cancel_left,
    List.getElem?_eq_getElem inside']

/-- Whatever was compiled, and however that ended, the code of the unit refers to names in the order
    of the pool, to each at most once and to none that is not there. The names that the code of an
    expression refers to are those of the expression, in the order in which they are looked at, and
    no others were added to the pool. -/
theorem names_never_alias (settings : Settings) (calls : List (Source × Arena)) :
    let u := ({ settings } : CodeUnit).after calls
    u.handles.Pairwise (· < ·) ∧ (∀ k ∈ u.handles, k < u.pool.length) ∧
      ∀ tree arena start, (u.compile (.expression tree) arena).result = .ok start →
        let v := (u.compile (.expression tree) arena).unit
        ((v.instructions.toList.drop start).flatMap Instruction.handles).map v.name? =
          tree.names.map some ∧
          v.pool = u.pool ++ tree.names := by
  intro u
  have fresh :
      Ordered ({ settings } : CodeUnit).instructions.toList ({ settings } : CodeUnit).pool :=
    ⟨.nil, fun _ mem => nomatch mem⟩
  have ordered : Ordered u.instructions.toList u.pool :=
    after_maintains invariant_ordered fresh calls
  refine ⟨ordered.increasing, ordered.below, ?_⟩
  intro tree arena start accepted
  have added := adds_of_compile_eq_ok accepted
  exact ⟨added.map_name?_handles, tree.refers.names ▸ added.names⟩

/-- A property is set to an object that holds a name and a function. -/
def storedObject : Expression :=
  .assignment .assign (.member (.name "a") "b")
    (.object [⟨.name "k", .name "c"⟩, ⟨.name "f", .function none ["x"] [.expression (.name "x")]⟩])

/-- A choice that needs the tree walker, of which the name of the test is left. -/
def givenUpChoice : List (Source × Arena) :=
  [(.statements [.ifElse (.name "t") (.ret none) none] true, {})]

/-- The names of the object are behind the one that was left. -/
theorem names_never_alias_storedObject :
    let u := ({ settings := { allowEscape := false } } : CodeUnit).after givenUpChoice
    let v := (u.compile (.expression storedObject) {}).unit
    (u.compile (.expression storedObject) {}).result = .ok 0 ∧ u.pool = ["t"] ∧
      ((v.instructions.toList.drop 0).flatMap Instruction.handles).map v.name? =
        ["a", "b", "c", "k", "f"].map some ∧
        v.pool = u.pool ++ ["a", "b", "c", "k", "f"] := by
  have accepted :
      ((({ settings := { allowEscape := false } } : CodeUnit).after givenUpChoice).compile
      (.expression storedObject) {}).result = .ok 0 := by decide +kernel
  have left : (({ settings := { allowEscape := false } } : CodeUnit).after givenUpChoice).pool =
      ["t"] := by decide +kernel
  obtain ⟨-, -, resolves⟩ := names_never_alias { allowEscape := false } givenUpChoice
  exact ⟨accepted, left, resolves storedObject {} 0 accepted⟩

end CodeUnit

end StackScript
