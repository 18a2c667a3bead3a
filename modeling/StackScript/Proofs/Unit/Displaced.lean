import StackScript.Proofs.Segment.Correspond
import StackScript.Proofs.Unit.Entry
import StackScript.Proofs.Unit.Escapes

/-!
# Code does not depend on its place

A source that is compiled into two units gives the same code twice. The targets of jumps differ by
as much as the offsets at which the code begins, and the places of names by as much as the numbers
of names before; nothing else differs. So no code depends on what was compiled before it.
-/

namespace StackScript

/-- The operands are the same, but for targets, which are as far from the offsets `o` and `o'`, and
    names, which are as far from the places `n` and `n'`. -/
inductive Operand.Displaced (o n o' n' : Nat) : Operand → Operand → Prop
  | jump {t t' : Nat} (distance : t + o' = t' + o) : Displaced o n o' n' (.jump t) (.jump t')
  | name {k k' : Nat} (distance : k + n' = k' + n) : Displaced o n o' n' (.name k) (.name k')
  | same {a : Operand} (unnamed : ∀ k, a ≠ .name k) (still : ∀ t, a ≠ .jump t) :
    Displaced o n o' n' a a

theorem Segment.relates_displaced (s : Segment) (o n o' n' : Nat) :
    s.Relates (Operand.Displaced o n o' n') o n o' n' where
  fixed _ unnamed still := .same unnamed still
  names k _ _ := .name (by omega)
  targets k _ := .jump (by omega)

namespace CodeUnit

/-- The entry points of one source in two units. -/
theorem entry_displaced (u v : CodeUnit) (source : Source) :
    List.Forall₂ (Instruction.Corresponds
        (Operand.Displaced u.length u.pool.length v.length v.pool.length))
      (u.entry source) (v.entry source) := by
  have placed := source.segment.place_corresponds
    (source.segment.relates_displaced u.length u.pool.length v.length v.pool.length)
  exact List.rel_append placed (.cons ⟨rfl, .none, rfl⟩ .nil)

/-- A source that is compiled into two units in the same mode, and for which there is room in both,
    is given up in both or becomes the same code in both, but for the distances of jumps and names.
    The same names are added. -/
theorem compile_displaced (u v : CodeUnit) (source : Source) (arena arena' : Arena)
    (mode : u.settings.allowEscape = v.settings.allowEscape)
    (room : ∀ region, (u.compile source arena).result ≠ .error (.outOfMemory region))
    (room' : ∀ region, (v.compile source arena').result ≠ .error (.outOfMemory region)) :
    let c := u.compile source arena
    let c' := v.compile source arena'
    (∃ texts, c.unit.pool = u.pool ++ texts ∧ c'.unit.pool = v.pool ++ texts) ∧
      ((c.result = .error .needsWalker ∧ c'.result = .error .needsWalker) ∨
        (c.result = .ok u.length ∧ c'.result = .ok v.length ∧
          ∃ code code', c.unit.instructions.toList = u.instructions.toList ++ code ∧
            c'.unit.instructions.toList = v.instructions.toList ++ code' ∧
            List.Forall₂ (Instruction.Corresponds
              (Operand.Displaced u.length u.pool.length v.length v.pool.length)) code code')) := by
  intro c c'
  rcases both_add_or_leave mode room room' with
    ⟨answer, answer', added, added'⟩ | ⟨answer, answer', left, left'⟩
  · refine ⟨⟨source.segment.names, added.names, added'.names⟩, .inr ⟨answer, answer', ?_⟩⟩
    exact ⟨u.entry source, v.entry source, added.code, added'.code, entry_displaced u v source⟩
  · exact ⟨⟨source.leftovers, left.names, left'.names⟩, .inl ⟨answer, answer'⟩⟩

/-- A unit with an entry point already. -/
def occupied : CodeUnit :=
  (({} : CodeUnit).compile (.expression (.logical .and (.name "x") (.name "y"))) {}).unit

/-- A loop that needs the tree walker leaves names, and the loop behind it has jumps. -/
theorem compile_displaced_occupied :
    (({} : CodeUnit).compile (.statements mixedLoops true) {}).result = .ok 0 ∧
      (occupied.compile (.statements mixedLoops true) {}).result = .ok 4 ∧
      ∃ code code',
        (({} : CodeUnit).compile (.statements mixedLoops true) {}).unit.instructions.toList = code ∧
        (occupied.compile (.statements mixedLoops true) {}).unit.instructions.toList =
          occupied.instructions.toList ++ code' ∧
        List.Forall₂ (Instruction.Corresponds (Operand.Displaced 0 0 4 2)) code code' := by
  have accepted : (({} : CodeUnit).compile (.statements mixedLoops true) {}).result = .ok 0 := by
    decide +kernel
  have accepted' : (occupied.compile (.statements mixedLoops true) {}).result = .ok 4 := by
    decide +kernel
  have length : occupied.length = 4 := by decide +kernel
  have names : occupied.pool.length = 2 := by decide +kernel
  obtain ⟨-, walked | ⟨-, -, code, code', written, written', alike⟩⟩ :=
    compile_displaced {} occupied (.statements mixedLoops true) {} {} rfl (by simp [accepted])
      (by simp [accepted'])
  · rw [accepted] at walked
    cases walked.1
  · rw [length, names] at alike
    exact ⟨accepted, accepted', code, code', written, written', alike⟩

end CodeUnit

end StackScript
