import Mathlib.Logic.Function.Basic
import StackScript.Proofs.Compile.Structured
import StackScript.Proofs.Unit.GivenUp

/-!
# Units that share an arena

Several units may copy their text into one arena, so that a unit finds the arena as the others left
it. As long as the arena has no limit, that makes no difference: each unit is compiled as if it were
alone.
-/

namespace StackScript

open Compile

/-! ## Steps on another arena -/

/-- The draft with another arena. -/
def Draft.on (d : Draft) (arena : Arena) : Draft :=
  { d with arena }

theorem Draft.reportGrowth_on (d : Draft) (arena : Arena) (event : Option Event) :
    reportGrowth (d.on arena) event = (reportGrowth d event).on arena := by
  cases event <;> rfl

namespace Compile

/-- What a step gives, with another arena in the draft. -/
def on {α : Type} (arena : Arena) : EStateM.Result Halt Draft α → EStateM.Result Halt Draft α
  | .ok a d => .ok a (d.on arena)
  | .error halt d => .error halt (d.on arena)

/-- On every arena without a limit the step gives the same, but for the arena, which still has no
    limit. -/
def Detached {α : Type} (step : Compile α) : Prop :=
  ∀ (d : Draft) (arena : Arena), d.arena.limit = none → arena.limit = none →
    (left (step d)).arena.limit = none ∧
      ∃ arena', arena'.limit = none ∧ step (d.on arena) = on arena' (step d)

/-- A step that neither looks at the arena nor copies into it. -/
theorem detached_of_on {α : Type} {step : Compile α}
    (same : ∀ d arena, step (d.on arena) = on arena (step d))
    (kept : ∀ d, (left (step d)).arena = d.arena) : Detached step := by
  intro d arena unlimited unlimited'
  rw [kept]
  exact ⟨unlimited, arena, unlimited', same d arena⟩

/-- One step after another. -/
theorem Detached.bind {α β : Type} {step : Compile α} {rest : α → Compile β} (first : Detached step)
    (second : ∀ a, Detached (rest a)) : Detached (step >>= rest) := by
  intro d arena unlimited unlimited'
  obtain ⟨unlimited₁, arena₁, unlimited₁', same⟩ := first d arena unlimited unlimited'
  simp only [Bind.bind, EStateM.bind, same]
  cases h : step d with
  | ok a e =>
    rw [h] at unlimited₁
    exact second a e arena₁ unlimited₁ unlimited₁'
  | error halt e =>
    rw [h] at unlimited₁
    exact ⟨unlimited₁, arena₁, unlimited₁', rfl⟩

theorem detached_emit (i : Instruction) : Detached (emit i) := by
  apply detached_of_on
  · intro d arena
    by_cases room : d.code.hasRoom = true
    · simp only [emit, Draft.on, room, if_true, on]
      exact congrArg _ (Draft.reportGrowth_on { d with code := d.code.push i } arena _)
    · simp [emit, Draft.on, on, room]
  · intro d
    by_cases room : d.code.hasRoom = true
    · simp only [emit, room, if_true, left]
      exact arena_reportGrowth _ _
    · simp [emit, left, room]

theorem detached_intern (text : String) : Detached (intern text) := by
  apply detached_of_on
  · intro d arena
    by_cases room : d.names.hasRoom = true
    · simp only [intern, Draft.on, room, if_true, on]
      exact congrArg _ (Draft.reportGrowth_on { d with names := d.names.push text } arena _)
    · simp only [intern, Draft.on, room, Bool.false_eq_true, if_false, on]
      exact congrArg _ (Draft.reportGrowth_on { d with names := d.names.makeRoom } arena _)
  · intro d
    by_cases room : d.names.hasRoom = true
    · simp only [intern, room, if_true, left]
      exact arena_reportGrowth _ _
    · simp only [intern, left, room, Bool.false_eq_true, if_false]
      exact arena_reportGrowth _ _

/-- Where in the arena a text is copied to does not show in the copy. -/
theorem detached_copy (text : String) : Detached (copy text) := by
  intro d arena unlimited unlimited'
  obtain ⟨b, reserved⟩ := Arena.exists_reserve unlimited text.utf8ByteSize
  obtain ⟨b', reserved'⟩ := Arena.exists_reserve unlimited' text.utf8ByteSize
  have here : copy text d = .ok text (d.on b) := by
    simp only [copy, Arena.copy, reserved]
    rfl
  have there : copy text (d.on arena) = .ok text (d.on b') := by
    simp only [copy, Arena.copy, Draft.on, reserved']
    rfl
  rw [here, there]
  refine ⟨(Arena.limit_of_reserve reserved).trans unlimited, b', ?_, rfl⟩
  exact (Arena.limit_of_reserve reserved').trans unlimited'

theorem detached_escape (tree : Statement) : Detached (escape tree) := by
  intro d arena unlimited unlimited'
  cases escapes : d.escapes with
  | true =>
    have here : escape tree d = emitWith .escape (.statement tree) d := by simp [escape, escapes]
    have there : escape tree (d.on arena) = emitWith .escape (.statement tree) (d.on arena) := by
      simp [escape, Draft.on, escapes]
    rw [here, there]
    exact detached_emit _ d arena unlimited unlimited'
  | false =>
    have here : escape tree d = .error .needsWalker d := by simp [escape, escapes]
    have there : escape tree (d.on arena) = .error .needsWalker (d.on arena) := by
      simp [escape, Draft.on, escapes]
    rw [here, there]
    exact ⟨unlimited, arena, unlimited', rfl⟩

/-- What a loop takes back is not in the arena. -/
theorem detached_loop (tree : Statement) {body : Compile Unit} (h : Detached body) :
    Detached (loop tree body) := by
  intro d arena unlimited unlimited'
  have inner := h { d with escapes := false } arena unlimited unlimited'
  obtain ⟨unlimited₁, arena₁, unlimited₁', same⟩ := inner
  have inside : { d.on arena with escapes := false } = Draft.on { d with escapes := false } arena :=
    rfl
  simp only [loop, inside, same]
  cases hbody : body { d with escapes := false } with
  | ok a e =>
    rw [hbody] at unlimited₁
    exact ⟨unlimited₁, arena₁, unlimited₁', rfl⟩
  | error halt e =>
    rw [hbody] at unlimited₁
    cases halt with
    | outOfMemory region => exact ⟨unlimited₁, arena₁, unlimited₁', rfl⟩
    | needsWalker => exact detached_escape tree _ arena₁ unlimited₁ unlimited₁'

theorem detached : Compositional Detached where
  pure _ := detached_of_on (fun _ _ => rfl) fun _ => rfl
  bind := Detached.bind
  position := detached_of_on (fun _ _ => rfl) fun _ => rfl
  emit := detached_emit
  patchJump _ := detached_of_on (fun _ _ => rfl) fun _ => rfl
  intern := detached_intern
  copy := detached_copy
  overflow := detached_of_on (fun _ _ => rfl) fun _ => rfl
  report _ := detached_of_on (fun _ _ => rfl) fun _ => rfl
  escape := detached_escape
  loop tree _ body := detached_loop tree body

end Compile

/-! ## Units on another arena -/

namespace CodeUnit

variable {arena arena' : Arena}

/-- Compiling is the same on another arena without a limit, but for the arena. -/
theorem compileOn_on (u : CodeUnit) (source : Source) (code : Code) (names : NamePool)
    (unlimited : arena.limit = none) (unlimited' : arena'.limit = none) :
    ∃ last, u.compileOn source code names arena' =
      { u.compileOn source code names arena with arena := last } := by
  let d : Draft := { code, names, arena, escapes := u.settings.allowEscape }
  have step : Detached (do source.compile; emitOp .ret : Compile Unit) :=
    source.entry_has detached.structured
  obtain ⟨-, last, -, same⟩ := step d arena' unlimited unlimited'
  refine ⟨last, ?_⟩
  have moved : (⟨code, names, arena', u.settings.allowEscape, #[]⟩ : Draft) = d.on arena' := rfl
  simp only [compileOn, moved, same]
  cases (do source.compile; emitOp .ret : Compile Unit) d with
  | ok _ e => rfl
  | error halt e => cases halt <;> rfl

/-- On every arena without a limit a source is compiled in the same way. -/
theorem compile_on (u : CodeUnit) (source : Source) (unlimited : arena.limit = none)
    (unlimited' : arena'.limit = none) :
    ∃ last, u.compile source arena' = { u.compile source arena with arena := last } := by
  unfold compile
  cases u.ensureCode with
  | error region => exact ⟨arena', rfl⟩
  | ok code =>
    cases u.ensureNames with
    | error region => exact ⟨arena', rfl⟩
    | ok names =>
      exact compileOn_on { u with code := none, names := none } _ _ _ unlimited unlimited'

end CodeUnit

/-! ## Units side by side -/

/-- Units that copy their text into one arena. -/
structure Units (ι : Type) where
  units : ι → CodeUnit
  arena : Arena

/-- Of items for several units, those for the given one. -/
def addressed {ι α : Type} [DecidableEq ι] (i : ι) (items : List (ι × α)) : List α :=
  (items.filter fun item => item.1 = i).map Prod.snd

section Addressed

variable {ι α : Type} [DecidableEq ι] {i j : ι}

theorem addressed_cons_self (a : α) (items : List (ι × α)) :
    addressed i ((i, a) :: items) = a :: addressed i items := by
  simp [addressed]

theorem addressed_cons_of_ne (other : j ≠ i) (a : α) (items : List (ι × α)) :
    addressed i ((j, a) :: items) = addressed i items := by
  simp [addressed, other]

end Addressed

namespace Units

variable {ι : Type} [DecidableEq ι] {i j : ι}

/-- A source is compiled into one of the units. -/
def compile (us : Units ι) (i : ι) (source : Source) : Units ι :=
  let compiled := (us.units i).compile source us.arena
  ⟨Function.update us.units i compiled.unit, compiled.arena⟩

/-- The units after sources have been compiled one after the other, each into the unit that it is
    for. -/
def after (us : Units ι) : List (ι × Source) → Units ι
  | [] => us
  | (i, source) :: rest => (us.compile i source).after rest

/-- The answers to compiling sources one after the other, each with the unit that gave it. -/
def answers (us : Units ι) : List (ι × Source) → List (ι × Except CompileError Nat)
  | [] => []
  | (i, source) :: rest =>
    (i, ((us.units i).compile source us.arena).result) :: (us.compile i source).answers rest

theorem units_compile_self (us : Units ι) (i : ι) (source : Source) :
    (us.compile i source).units i = ((us.units i).compile source us.arena).unit :=
  Function.update_self ..

/-- No call changes another unit. -/
theorem units_compile_of_ne (us : Units ι) (other : j ≠ i) (source : Source) :
    (us.compile j source).units i = us.units i :=
  Function.update_of_ne other.symm ..

theorem limit_arena_compile (us : Units ι) (i : ι) (source : Source) :
    (us.compile i source).arena.limit = us.arena.limit :=
  (us.units i).limit_arena_compile source us.arena

/-- A unit gives the answers, and ends up as it does, when only its own sources are compiled on
    another arena. -/
theorem alone_of_unlimited (us : Units ι) (arena : Arena) (unlimited : us.arena.limit = none)
    (unlimited' : arena.limit = none) (calls : List (ι × Source)) (i : ι) :
    let own := (us.units i).callsFrom arena (addressed i calls)
    addressed i (us.answers calls) = (us.units i).answers own ∧
      (us.after calls).units i = (us.units i).after own := by
  induction calls generalizing us arena with
  | nil => exact ⟨rfl, rfl⟩
  | cons call calls ih =>
    obtain ⟨j, source⟩ := call
    have unlimited₁ := (us.limit_arena_compile j source).trans unlimited
    by_cases mine : j = i
    · subst mine
      have unlimited₁' := ((us.units j).limit_arena_compile source arena).trans unlimited'
      obtain ⟨answers, after⟩ := ih (us.compile j source) _ unlimited₁ unlimited₁'
      obtain ⟨last, same⟩ := (us.units j).compile_on source unlimited unlimited'
      have result : ((us.units j).compile source arena).result =
          ((us.units j).compile source us.arena).result := by rw [same]
      have unit : ((us.units j).compile source arena).unit = (us.compile j source).units j := by
        rw [same, units_compile_self]
      rw [addressed_cons_self]
      simp only [Units.answers, Units.after, CodeUnit.callsFrom, CodeUnit.answers, CodeUnit.after,
        addressed_cons_self, result, unit]
      exact ⟨congrArg _ answers, after⟩
    · obtain ⟨answers, after⟩ := ih (us.compile j source) arena unlimited₁ unlimited'
      rw [units_compile_of_ne us mine] at answers after
      simp only [Units.answers, Units.after, addressed_cons_of_ne mine]
      exact ⟨answers, after⟩

/-- Units that share an arena without a limit do not disturb one another: in whatever order sources
    are compiled into them, and however that ends, each unit gives the same answers and holds the
    same code and names as if it were alone, with an arena of its own. -/
theorem compile_side_by_side (settings : ι → Settings) (arena : Arena)
    (unlimited : arena.limit = none)
    (calls : List (ι × Source)) (i : ι) :
    let together : Units ι := ⟨fun i => { settings := settings i }, arena⟩
    let alone : CodeUnit := { settings := settings i }
    let own := alone.callsFrom {} (addressed i calls)
    addressed i (together.answers calls) = alone.answers own ∧
      (together.after calls).units i = alone.after own := by
  intro together alone own
  exact together.alone_of_unlimited {} unlimited rfl calls i

/-- The first unit has to do without the tree walker, and the second has room for three
    instructions. -/
def twoSettings (second : Bool) : Settings :=
  { allowEscape := second, maxInstructions := if second then some 3 else none }

/-- Needs room in the arena. -/
def literalText : Source :=
  .expression (.literal (.string "text"))

/-- Adds two names. -/
def sumOfNames : Source :=
  .expression (.binary .add (.name "a") (.name "b"))

/-- Text for both units, a statement that the first unit gives up, and code for which there is no
    room in the second. -/
def twoCalls : List (Bool × Source) :=
  [(true, literalText), (false, literalText), (false, .statements [.ret none] true),
    (true, sumOfNames)]

/-- Neither unit notices that the other one copied text, gave up or ran out of memory. -/
theorem compile_side_by_side_twoCalls :
    let together : Units Bool := ⟨fun second => { settings := twoSettings second }, {}⟩
    let first : CodeUnit := { settings := twoSettings false }
    let second : CodeUnit := { settings := twoSettings true }
    let calls := first.callsFrom {} [literalText, .statements [.ret none] true]
    let calls' := second.callsFrom {} [literalText, sumOfNames]
    addressed false (together.answers twoCalls) = first.answers calls ∧
      addressed true (together.answers twoCalls) = second.answers calls' ∧
      (together.after twoCalls).units false = first.after calls ∧
      (together.after twoCalls).units true = second.after calls' := by
  intro together first second calls calls'
  obtain ⟨answers, after⟩ := compile_side_by_side twoSettings {} rfl twoCalls false
  obtain ⟨answers', after'⟩ := compile_side_by_side twoSettings {} rfl twoCalls true
  exact ⟨answers, answers', after, after'⟩

end Units

end StackScript
