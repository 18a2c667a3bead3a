import StackScript.Proofs.Segment.Escapes
import StackScript.Proofs.Unit.Entry

/-!
# The escapes of an entry point

An entry point hands over to the tree walker what its statements do, in their order. A loop has
either code of its own, from which nothing is handed over, or is handed over as a whole: no loop is
left half way.
-/

namespace StackScript

open Compile

theorem Statement.writes_segment (s : Statement) (o n : Nat) :
    Writes s.compile o n (s.segment.place o n) := by
  rintro d e rfl rfl done
  by_cases walked : d.escapes = true ∨ s.needsWalker = false
  · exact (s.emits_compile d walked).written done
  · rw [not_or, Bool.not_eq_true, Bool.not_eq_false] at walked
    have stops := s.stops_compile d walked.1 walked.2
    rw [Stops, Meets, done] at stops
    exact stops.elim

namespace CodeUnit

variable {u v : CodeUnit} {source : Source} {arena : Arena} {start : Nat}

theorem Adds.drop_start (added : u.Adds source start v) :
    v.instructions.toList.drop start = u.entry source := by
  rw [added.code, added.start_eq]
  exact List.drop_left' Array.length_toList

theorem filter_entry (u : CodeUnit) (body : List Statement) (asBlock : Bool) :
    (u.entry (.statements body asBlock)).filter Instruction.isEscape =
      (blockHandedOver (Source.selected body asBlock)).map .handOver := by
  rw [entry, Source.segment, List.filter_append, block_handsOver]
  exact List.append_nil _

variable {body : List Statement} {asBlock : Bool}

/-- The code of a statement that is not inside of one that is handed over. Its names are among those
    that were added. -/
theorem Adds.exists_stands (added : u.Adds (.statements body asBlock) start v) {tree s : Statement}
    (mem : tree ∈ Source.selected body asBlock) (within : s.Within tree) :
    ∃ o, start ≤ o ∧ o + s.segment.size < v.length ∧
      s.segment.Placed v.instructions o u.pool.length v.pool.length := by
  have part := within.part.trans (part_block mem)
  obtain ⟨o, above, below, placed⟩ := part.stands added.stands.1
  have inside : start + (blockSegment (Source.selected body asBlock)).size < v.length := by
    rw [length, added.size_eq]
    exact Nat.lt_succ_self _
  have pool : v.pool.length =
      u.pool.length + (blockSegment (Source.selected body asBlock)).names.length := by
    rw [added.names, List.length_append]
    rfl
  exact ⟨o, above, by omega, placed.mono (Nat.le_refl _) (Nat.le_of_eq pool.symm)⟩

/-- The statements that an entry point hands over are those of its trees, in their order. Each loop
    in the trees that is not inside of one of them has its code in the entry point, with its names
    among those that were added. That code is what compiling the loop writes there: one instruction
    that hands over the whole loop, or a loop of its own from which nothing is handed over. -/
theorem escapes_of_compile_eq_ok
    (h : (u.compile (.statements body asBlock) arena).result = .ok start) :
    let v := (u.compile (.statements body asBlock) arena).unit
    let trees := Source.selected body asBlock
    (v.instructions.toList.drop start).filter Instruction.isEscape =
        (blockHandedOver trees).map .handOver ∧
      ∀ tree ∈ trees, ∀ loop inner : Statement, loop.Within tree → loop.body? = some inner →
        ∃ o n, start ≤ o ∧ o + loop.segment.size < v.length ∧
          u.pool.length ≤ n ∧ n + loop.segment.names.length ≤ v.pool.length ∧
          let code := loop.segment.place o n
          Stands v.instructions o code ∧ Writes loop.compile o n code ∧
          (inner.needsWalker = true → code = [.handOver loop]) ∧
          (inner.needsWalker = false →
            (∀ i ∈ code, i.isEscape = false) ∧ EndsBack o code) := by
  intro v trees
  have added := adds_of_compile_eq_ok h
  constructor
  · rw [added.drop_start]
    exact filter_entry u body asBlock
  · intro tree mem loop inner within loops
    obtain ⟨o, above, below, n, low, high, stands⟩ := added.exists_stands mem within
    have needs := Statement.needsWalker_of_body? loops
    refine ⟨o, n, above, below, low, high, stands, loop.writes_segment o n, ?_, ?_⟩
    · intro walked
      obtain ⟨texts, heq⟩ := Statement.exists_segment_eq_escape loops (needs.trans walked)
      simp only [heq]
      rfl
    · intro inline
      have plain := loop.yields (fun _ plain => plain) (.inr (needs.trans inline)) o n
      exact ⟨fun i hi => (plain i hi).isEscape_eq_false, Statement.endsBack loops inline o n⟩

/-- The `break` is two loops deep. -/
def brokenLoop : Statement :=
  .whileLoop (.name "a")
    (.block [.whileLoop (.name "b") (.ifElse (.name "c") (.breakTo none) none)])

/-- A loop with code of its own. -/
def quietLoop : Statement :=
  .whileLoop (.name "e") (.expression (.name "f"))

/-- Both loops, the second one inside of another in a choice, and a statement without code of its
    own. -/
def mixedLoops : List Statement :=
  [brokenLoop, .ifElse (.name "d") (.doWhile quietLoop (.name "g")) (some (.ret none))]

/-- The broken loop is handed over as a whole, and the `return` behind it; the loops of the choice
    are not. -/
theorem escapes_of_compile_mixedLoops :
    (({} : CodeUnit).compile (.statements mixedLoops true) {}).result = .ok 0 ∧
      (({} : CodeUnit).compile (.statements mixedLoops true) {}).unit.instructions.toList.filter
          Instruction.isEscape =
        [.handOver brokenLoop, .handOver (.ret none)] ∧
      ∃ o n, n + 2 ≤ 7 ∧
        let code := quietLoop.segment.place o n
        Stands (({} : CodeUnit).compile (.statements mixedLoops true) {}).unit.instructions o code ∧
          (∀ i ∈ code, i.isEscape = false) ∧ EndsBack o code := by
  have accepted : (({} : CodeUnit).compile (.statements mixedLoops true) {}).result = .ok 0 := by
    decide +kernel
  have within : quietLoop.Within (.ifElse (.name "d") (.doWhile quietLoop (.name "g"))
      (some (.ret none))) :=
    .consequent (.loop rfl rfl .refl)
  have handed : blockHandedOver (Source.selected mixedLoops true) = [brokenLoop, .ret none] := rfl
  have pool : (({} : CodeUnit).compile (.statements mixedLoops true) {}).unit.pool.length = 7 := by
    decide +kernel
  have names : quietLoop.segment.names.length = 2 := rfl
  obtain ⟨escapes, loops⟩ := escapes_of_compile_eq_ok accepted
  rw [handed] at escapes
  obtain ⟨o, n, -, -, -, high, stands, -, -, quiet⟩ :=
    loops _ (.tail _ (.head _)) quietLoop (.expression (.name "f")) within rfl
  rw [pool, names] at high
  exact ⟨accepted, escapes, o, n, high, stands, quiet rfl⟩

end CodeUnit

end StackScript
