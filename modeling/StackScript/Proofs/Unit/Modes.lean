import StackScript.Proofs.Compile.Structured
import StackScript.Proofs.Unit.Escapes

/-!
# With and without escapes

A unit may leave statements to the tree walker, or may not. A tree is compiled in the same way in
both modes, up to the first statement that is left to the tree walker outside of loops; where there
is none, both modes give the same. Inside of loops the modes do not differ, as there nothing may be
left to the tree walker in either of them.
-/

namespace StackScript

/-- The draft with the mode set. -/
def Draft.allowing (d : Draft) (escapes : Bool) : Draft :=
  { d with escapes }

namespace Compile

/-- What a step gives, with the mode set in the draft. -/
def allowing {α : Type} (escapes : Bool) : EStateM.Result Halt Draft α → EStateM.Result Halt Draft α
  | .ok a d => .ok a (d.allowing escapes)
  | .error halt d => .error halt (d.allowing escapes)

/-- Without escapes the step stops for the tree walker, or it gives the same in both modes. -/
def Agrees {α : Type} (step : Compile α) : Prop :=
  ∀ d : Draft, (∃ e, step (d.allowing false) = .error .needsWalker e) ∨
    ∃ result, step (d.allowing true) = allowing true result ∧
      step (d.allowing false) = allowing false result

/-- A step that does not look at the mode. -/
theorem agrees_of_allowing {α : Type} {step : Compile α}
    (h : ∀ d escapes, step (d.allowing escapes) = allowing escapes (step d)) : Agrees step :=
  fun d => .inr ⟨step d, h d true, h d false⟩

theorem Agrees.bind {α β : Type} {step : Compile α} {rest : α → Compile β} (first : Agrees step)
    (second : ∀ a, Agrees (rest a)) : Agrees (step >>= rest) := by
  intro d
  simp only [Bind.bind, EStateM.bind]
  rcases first d with ⟨e, stops⟩ | ⟨result, free, strict⟩
  · left
    rw [stops]
    exact ⟨e, rfl⟩
  · rw [free, strict]
    cases result with
    | ok a e => exact second a e
    | error halt e => exact .inr ⟨.error halt e, rfl, rfl⟩

theorem agrees_emit (i : Instruction) : Agrees (emit i) := by
  refine agrees_of_allowing fun d escapes => ?_
  cases room : d.code.hasRoom <;> cases growth : d.code.growth? <;>
    simp [emit, allowing, Draft.allowing, reportGrowth, room, growth]

theorem agrees_intern (text : String) : Agrees (intern text) := by
  refine agrees_of_allowing fun d escapes => ?_
  cases room : d.names.hasRoom <;> cases growth : d.names.growth? <;>
    simp [intern, allowing, Draft.allowing, reportGrowth, room, growth]

theorem agrees_copy (text : String) : Agrees (copy text) := by
  refine agrees_of_allowing fun d escapes => ?_
  cases copied : d.arena.copy text <;> simp [copy, allowing, Draft.allowing, copied]

/-- A statement that is left to the tree walker. -/
theorem agrees_escape (tree : Statement) : Agrees (escape tree) :=
  fun d => .inl ⟨d.allowing false, rfl⟩

/-- The body of a loop is compiled without escapes in both modes. -/
theorem agrees_loop (tree : Statement) (body : Compile Unit) : Agrees (loop tree body) := by
  intro d
  have inside (escapes : Bool) :
      { d.allowing escapes with escapes := false } = d.allowing false := rfl
  simp only [loop, inside]
  cases body (d.allowing false) with
  | ok a e => exact .inr ⟨.ok () e, rfl, rfl⟩
  | error halt e =>
    cases halt with
    | outOfMemory region => exact .inr ⟨.error (.outOfMemory region) e, rfl, rfl⟩
    | needsWalker => exact .inl ⟨_, rfl⟩

theorem agrees : Compositional Agrees where
  pure _ := agrees_of_allowing fun _ _ => rfl
  bind := Agrees.bind
  position := agrees_of_allowing fun _ _ => rfl
  emit := agrees_emit
  patchJump _ := agrees_of_allowing fun _ _ => rfl
  intern := agrees_intern
  copy := agrees_copy
  overflow := agrees_of_allowing fun _ _ => rfl
  report _ := agrees_of_allowing fun _ _ => rfl
  escape := agrees_escape
  loop tree body _ := agrees_loop tree body

end Compile

open Compile

namespace CodeUnit

/-- The unit in the given mode. -/
def allowing (u : CodeUnit) (escapes : Bool) : CodeUnit :=
  { u with settings := u.settings.withEscape escapes }

end CodeUnit

/-- The answer with the unit in the given mode. -/
def Compiled.allowing (c : Compiled) (escapes : Bool) : Compiled :=
  { c with unit := c.unit.allowing escapes }

namespace CodeUnit

theorem compileOn_allowing_false (u : CodeUnit) (source : Source) (code : Code) (names : NamePool)
    (arena : Arena) :
    ((u.allowing false).compileOn source code names arena).result = .error .needsWalker ∨
      (u.allowing false).compileOn source code names arena =
        ((u.allowing true).compileOn source code names arena).allowing false := by
  let d : Draft := { code, names, arena, escapes := true }
  have step : Agrees (do source.compile; emitOp .ret : Compile Unit) :=
    source.entry_has agrees.structured
  have draft (escapes : Bool) :
      (⟨code, names, arena, (u.allowing escapes).settings.allowEscape, #[]⟩ : Draft) =
        d.allowing escapes := rfl
  simp only [compileOn, draft]
  rcases step d with ⟨e, stops⟩ | ⟨result, free, strict⟩
  · left
    rw [stops]
  · right
    rw [free, strict]
    cases result with
    | ok _ e => rfl
    | error halt e => cases halt <;> rfl

/-- Without escapes a source is given up, or both modes give the same. -/
theorem compile_allowing_false (u : CodeUnit) (source : Source) (arena : Arena) :
    ((u.allowing false).compile source arena).result = .error .needsWalker ∨
      (u.allowing false).compile source arena =
        ((u.allowing true).compile source arena).allowing false := by
  have same (escapes : Bool) : (u.allowing escapes).ensureCode = u.ensureCode ∧
      (u.allowing escapes).ensureNames = u.ensureNames := ⟨rfl, rfl⟩
  simp only [compile, same]
  cases u.ensureCode with
  | error region => exact .inr rfl
  | ok code =>
    cases u.ensureNames with
    | error region => exact .inr rfl
    | ok names => exact compileOn_allowing_false { u with code := none, names := none } ..

/-- The code of a source escapes if and only if the source needs the tree walker. -/
theorem any_entry (u : CodeUnit) (source : Source) :
    (u.entry source).any Instruction.isEscape = source.needsWalker := by
  cases source with
  | expression tree =>
    rw [Source.needsWalker, List.any_eq_false]
    intro i hi
    rcases List.mem_append.mp hi with inner | last
    · exact Bool.eq_false_iff.mp (tree.yields _ _ i inner).isEscape_eq_false
    · obtain rfl := List.mem_singleton.mp last
      exact Bool.false_ne_true
  | statements body asBlock =>
    rw [Bool.eq_iff_iff, ← Bool.not_eq_false, ← Bool.not_eq_false, not_iff_not, Source.needsWalker,
      ← block_handedOver_eq_nil_iff, List.any_eq_false, ← List.filter_eq_nil_iff, filter_entry,
      List.map_eq_nil_iff]

theorem exists_ok_of_ne_error {c : Compiled}
    (room : ∀ region, c.result ≠ .error (.outOfMemory region))
    (done : c.result ≠ .error .needsWalker) :
    ∃ start, c.result = .ok start := by
  cases h : c.result with
  | ok start => exact ⟨start, rfl⟩
  | error e =>
    cases e with
    | outOfMemory region => exact absurd h (room region)
    | needsWalker => exact absurd h done

/-- With escapes a source is always compiled, unless a limit is reached. Without them it is compiled
    to the same if that does not escape, and else it is given up. Nothing else is ever given up for
    the tree walker. -/
theorem compile_in_both_modes (u : CodeUnit) (source : Source) (arena : Arena) :
    let free := (u.allowing true).compile source arena
    let strict := (u.allowing false).compile source arena
    ((∀ region, free.result ≠ .error (.outOfMemory region)) →
      let added := free.unit.instructions.toList.drop u.length
      free.result = .ok u.length ∧
        (added.any Instruction.isEscape = false → strict = free.allowing false) ∧
        (added.any Instruction.isEscape = true →
          strict.result = .error .needsWalker ∧ strict.unit.instructions = u.instructions)) ∧
      free.result ≠ .error .needsWalker ∧
      (strict.result = .error .needsWalker →
        (∀ tree, source ≠ .expression tree) ∧ source.needsWalker = true ∧
          strict.unit.instructions = u.instructions) := by
  intro free strict
  have never : free.result ≠ .error .needsWalker := by
    intro stops
    have leaves := leaves_of_compile_eq_error stops
    cases leaves.walked.1
  have gives (stops : strict.result = .error .needsWalker) :
      source.needsWalker = true ∧ strict.unit.instructions = u.instructions := by
    have leaves := leaves_of_compile_eq_error stops
    exact ⟨leaves.walked.2, leaves.code⟩
  refine ⟨fun room => ?_, never, fun stops => ⟨?_, gives stops⟩⟩
  · obtain ⟨start, done⟩ := exists_ok_of_ne_error room never
    have added := adds_of_compile_eq_ok done
    have start_eq : start = u.length := added.start_eq
    have escapes : (free.unit.instructions.toList.drop u.length).any Instruction.isEscape =
        source.needsWalker := by
      rw [← start_eq, added.drop_start]
      exact any_entry _ source
    refine ⟨done.trans (congrArg Except.ok start_eq), ?_⟩
    rw [escapes]
    rcases compile_allowing_false u source arena with stops | same
    · have needs := (gives stops).1
      exact ⟨fun inline => absurd needs (Bool.eq_false_iff.mp inline),
        fun _ => ⟨stops, (gives stops).2⟩⟩
    · have accepted : strict.result = .ok start := (congrArg Compiled.result same).trans done
      have inline := (adds_of_compile_eq_ok accepted).walked.resolve_left Bool.false_ne_true
      exact ⟨fun _ => same, fun needs => absurd needs (Bool.eq_false_iff.mp inline)⟩
  · rintro tree rfl
    cases (gives stops).1

/-- Without escapes the loop with the `break` is given up for the tree walker, and the loop without
    one is compiled as it is with them. -/
theorem compile_in_both_modes_loops :
    let fresh : CodeUnit := {}
    ((fresh.allowing true).compile (.statements mixedLoops true) {}).result = .ok 0 ∧
      ((fresh.allowing false).compile (.statements mixedLoops true) {}).result =
        .error .needsWalker ∧
      (fresh.allowing false).compile (.statements [quietLoop] true) {} =
        ((fresh.allowing true).compile (.statements [quietLoop] true) {}).allowing false := by
  intro fresh
  have mixed : ((fresh.allowing true).compile (.statements mixedLoops true) {}).result = .ok 0 := by
    decide +kernel
  have quiet : ((fresh.allowing true).compile (.statements [quietLoop] true) {}).result =
      .ok 0 := by
    decide +kernel
  obtain ⟨-, -, given⟩ := (compile_in_both_modes fresh (.statements mixedLoops true) {}).1
    (by simp [mixed])
  obtain ⟨-, same, -⟩ := (compile_in_both_modes fresh (.statements [quietLoop] true) {}).1
    (by simp [quiet])
  exact ⟨mixed, (given (by decide +kernel)).1, same (by decide +kernel)⟩

end CodeUnit

end StackScript
