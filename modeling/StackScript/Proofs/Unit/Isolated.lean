import StackScript.Proofs.Compile.Growth
import StackScript.Proofs.Segment.Correspond
import StackScript.Proofs.Unit.Kinds

/-!
# Entry points are isolated

Compiling more into a unit, with whatever end, leaves the code and the names that the unit has. The
jumps of an entry point stay inside of it, and it refers to its own names only; so it runs in the
same way ever after.
-/

namespace StackScript

open Compile Running

namespace CodeUnit

/-- The second unit has the code and the names of the first, and perhaps more behind them. -/
structure Extends (u v : CodeUnit) : Prop where
  code : u.instructions.toList <+: v.instructions.toList
  names : u.pool <+: v.pool

variable {u v w : CodeUnit} {source : Source} {arena : Arena} {start : Nat}

theorem Extends.refl (u : CodeUnit) : u.Extends u :=
  ⟨List.prefix_rfl, List.prefix_rfl⟩

theorem Extends.trans (first : u.Extends v) (second : v.Extends w) : u.Extends w :=
  ⟨first.code.trans second.code, first.names.trans second.names⟩

/-- The unit whose parts are the draft that compiling starts from. -/
theorem extends_keep {d e : Draft} (h : d.Extends e) (code : d.code.instructions = u.instructions)
    (names : d.names.entries.toList = u.pool) : u.Extends (v.keep e) where
  code := by
    rw [← code]
    exact h.written
  names := by
    rw [← names]
    exact h.added

/-- However compiling ends, the unit is left with a draft that extends the one it began with. -/
theorem compileOn_keeps (u : CodeUnit) (source : Source) (code : Code) (names : NamePool)
    (arena : Arena) :
    ∃ e, Draft.Extends { code, names, arena, escapes := u.settings.allowEscape } e ∧
      (u.compileOn source code names arena).unit = u.keep e ∧
      (u.compileOn source code names arena).arena = e.arena := by
  let d : Draft := { code, names, arena, escapes := u.settings.allowEscape }
  have grown := (source.entry_has keeps).extends_left d
  simp only [compileOn]
  cases hstep : (do source.compile; emitOp .ret : Compile Unit) d with
  | ok _ e =>
    rw [hstep] at grown
    exact ⟨e, grown, rfl, rfl⟩
  | error halt e =>
    rw [hstep] at grown
    cases halt with
    | needsWalker => exact ⟨_, Draft.Extends.rewind grown, rfl, rfl⟩
    | outOfMemory region => exact ⟨e, grown, rfl, rfl⟩

/-- Compiling a source leaves what was there, also if it is given up or memory runs out. -/
theorem compile_extends (u : CodeUnit) (source : Source) (arena : Arena) :
    u.Extends (u.compile source arena).unit := by
  unfold compile
  cases hcode : u.ensureCode with
  | error region => exact .refl u
  | ok code =>
    have same := ensureCode_eq_ok hcode
    cases hnames : u.ensureNames with
    | error region =>
      refine ⟨?_, List.prefix_rfl⟩
      rw [← same]
      exact List.prefix_rfl
    | ok names =>
      obtain ⟨e, grown, unit, -⟩ :=
        { u with code := none, names := none }.compileOn_keeps source code names arena
      dsimp only
      rw [unit]
      exact extends_keep grown same (ensureNames_eq_ok hnames)

theorem after_extends (u : CodeUnit) (calls : List (Source × Arena)) :
    u.Extends (u.after calls) := by
  induction calls generalizing u with
  | nil => exact .refl u
  | cons call calls ih =>
    obtain ⟨source, arena⟩ := call
    exact (u.compile_extends source arena).trans (ih _)

theorem Extends.getElem? (h : v.Extends w) {o : Nat} {i : Instruction}
    (found : v.instructions[o]? = some i) : w.instructions[o]? = some i := by
  rw [← Array.getElem?_toList] at found ⊢
  exact getElem?_mono h.code found

theorem getElem?_pool (u : CodeUnit) (k : Nat) :
    u.runnable.names.bind (·.get? k) = u.pool[k]? := by
  rw [Runnable.getElem?_texts, ← toList_texts, Array.getElem?_toList]

/-- The names in an entry point have a text in the pool of the unit. -/
theorem Adds.exists_name (added : u.Adds source start v) {o : Nat} {i : Instruction} {k : Nat}
    (above : start ≤ o) (found : v.instructions[o]? = some i)
    (operand : i.operand = some (.name k)) :
    ∃ text, v.pool[k]? = some text := by
  rcases List.mem_append.mp (added.mem_entry above found) with inner | last
  · have inside := (source.segment.name_of_mem_place inner operand).2
    have length : k < v.pool.length := by
      rw [added.names, List.length_append]
      exact inside
    exact ⟨_, List.getElem?_eq_getElem length⟩
  · obtain rfl := List.mem_singleton.mp last
    cases operand

/-- More names do not change what an instruction of an entry point finds. -/
theorem Adds.nameOperand_eq (added : u.Adds source start v) (more : v.Extends w) {o : Nat}
    {i : Instruction} (above : start ≤ o) (found : v.instructions[o]? = some i) :
    Step.nameOperand w.runnable i = Step.nameOperand v.runnable i := by
  unfold Step.nameOperand
  split
  · rename_i k operand
    obtain ⟨text, here⟩ := added.exists_name above found operand
    have there : w.pool[k]? = some text := getElem?_mono more.names here
    rw [getElem?_pool, getElem?_pool, here, there]
  · rfl

/-- An entry point runs in the same way when code and names were added behind it. -/
theorem Adds.run_eq (added : u.Adds source start v) (more : v.Extends w) (m : Machine)
    (budget : Nat) :
    (entered m start).run w.runnable budget = (entered m start).run v.runnable budget := by
  obtain ⟨shape, shaped⟩ := added.exists_shaped
  have shaped' : Shaped v.runnable.instructions shape start (stopOf source start) := shaped
  have begins := shaped.fits_entered (Nat.le_add_right _ _) m
  apply run_congr (P := fun r => r.Fits shape start (stopOf source start)) ?_ ?_ begins
  · rintro ⟨m, stack, o⟩ fits
    have inside : o < v.instructions.size := by
      rw [added.size_eq]
      exact Nat.lt_succ_of_le fits.below
    have found : v.instructions[o]? = some v.instructions[o] := Array.getElem?_eq_getElem inside
    have here : Step.next v.runnable ⟨m, stack, o⟩ = _ := Step.next_eq found
    have there : Step.next w.runnable ⟨m, stack, o⟩ = _ := Step.next_eq (more.getElem? found)
    rw [here, there, Step.execute_congr (added.nameOperand_eq more fits.above found)]
  · intro r r' fits next
    have after := shaped'.next_fits r fits
    rw [next] at after
    exact after

/-- Whatever is compiled, and however that ends, code and names of the unit stay as they are. A new
    entry point begins where the code ended; its jumps do not leave it, and whatever is compiled
    later, it runs as it does now. -/
theorem compile_isolated (u : CodeUnit) (source : Source) (arena : Arena) :
    let v := (u.compile source arena).unit
    u.instructions.toList <+: v.instructions.toList ∧ u.pool <+: v.pool ∧
      ∀ start, (u.compile source arena).result = .ok start →
        start = u.length ∧ ∃ stop, stop + 1 = v.length ∧
          v.instructions[stop]? = some { op := .ret } ∧
          (∀ o i, start ≤ o → v.instructions[o]? = some i → i.op.isJump = true →
            ∃ t, i.operand = some (.jump t) ∧ start ≤ t ∧ t ≤ stop) ∧
          ∀ (later : List (Source × Arena)) (m : Machine) (budget : Nat),
            (entered m start).run (v.after later).runnable budget =
              (entered m start).run v.runnable budget := by
  intro v
  have grown := u.compile_extends source arena
  refine ⟨grown.code, grown.names, ?_⟩
  intro start accepted
  have added := adds_of_compile_eq_ok accepted
  refine ⟨added.start_eq, stopOf source start, added.size_eq.symm, added.stands.2, ?_, ?_⟩
  · intro o i above found jumps
    exact added.exists_target above found jumps
  · intro later m budget
    exact added.run_eq (v.after_extends later) m budget

/-- Room for six instructions. -/
def cramped : CodeUnit :=
  { settings := { allowEscape := false, maxInstructions := some 6 } }

/-- A choice between two names, with a jump. -/
def eitherName : Source :=
  .expression (.logical .or (.name "a") (.name "b"))

/-- A statement that needs the tree walker, and code for which there is no room left. -/
def failingCalls : List (Source × Arena) :=
  [(.statements [.ifElse (.name "c") (.ret none) none] true, {}), (eitherName, {})]

/-- The choice of a name runs in the same way after one source was given up and another ran out of
    memory. -/
theorem compile_isolated_cramped :
    (cramped.compile eitherName {}).result = .ok 0 ∧
      (cramped.compile eitherName {}).unit.answers failingCalls =
        [.error .needsWalker, .error (.outOfMemory .instructions)] ∧
      ∀ (m : Machine) (budget : Nat),
        (entered m 0).run
            ((cramped.compile eitherName {}).unit.after failingCalls).runnable budget =
          (entered m 0).run (cramped.compile eitherName {}).unit.runnable budget := by
  have accepted : (cramped.compile eitherName {}).result = .ok 0 := by decide +kernel
  have answered : (cramped.compile eitherName {}).unit.answers failingCalls =
      [.error .needsWalker, .error (.outOfMemory .instructions)] := by decide +kernel
  obtain ⟨-, -, entry⟩ := compile_isolated cramped eitherName {}
  obtain ⟨-, stop, -, -, -, runs⟩ := entry 0 accepted
  exact ⟨accepted, answered, runs failingCalls⟩

end CodeUnit

end StackScript
