import StackScript.Proofs.Compile.Room
import StackScript.Proofs.Unit.History

/-!
# Limits and capacities

How large the buffers of a unit are at first, and how much it may take, decides whether memory
lasts, and nothing else: two units in the same mode hold the same after the same sources, as long as
memory lasts in both. A unit that may have more instructions lasts at least as long.
-/

namespace StackScript

open Compile

namespace CodeUnit

variable {u v : CodeUnit} {source : Source} {sources : List Source} {arena arena' : Arena}

/-- The sources one after the other, each with the arena that is left by those before it. -/
def callsFrom (u : CodeUnit) (arena : Arena) : List Source → List (Source × Arena)
  | [] => []
  | source :: rest =>
    (source, arena) :: (u.compile source arena).unit.callsFrom (u.compile source arena).arena rest

/-! ## The same code -/

/-- Two units in the same mode with the same code and the same names. -/
structure Alike (u v : CodeUnit) : Prop where
  mode : u.settings.allowEscape = v.settings.allowEscape
  code : u.instructions = v.instructions
  names : u.pool = v.pool

theorem Alike.compile (alike : u.Alike v)
    (room : ∀ region, (u.compile source arena).result ≠ .error (.outOfMemory region))
    (room' : ∀ region, (v.compile source arena').result ≠ .error (.outOfMemory region)) :
    (u.compile source arena).result = (v.compile source arena').result ∧
      (u.compile source arena).unit.Alike (v.compile source arena').unit := by
  have length : u.length = v.length := congrArg Array.size alike.code
  rcases both_add_or_leave alike.mode room room' with
    ⟨answer, answer', added, added'⟩ | ⟨answer, answer', left, left'⟩
  · refine ⟨by rw [answer, answer', length], ?_, ?_, ?_⟩
    · rw [added.settings, added'.settings, alike.mode]
    · have entry : u.entry source = v.entry source := by
        rw [CodeUnit.entry, CodeUnit.entry, length, alike.names]
      apply Array.toList_inj.mp
      rw [added.code, added'.code, alike.code, entry]
    · rw [added.names, added'.names, alike.names]
  · refine ⟨by rw [answer, answer'], ?_, ?_, ?_⟩
    · rw [left.settings, left'.settings, alike.mode]
    · rw [left.code, left'.code, alike.code]
    · rw [left.names, left'.names, alike.names]

/-- As long as memory lasts in both units, they give the same answers and stay alike. -/
theorem Alike.after (alike : u.Alike v) (lasts : u.Lasts (u.callsFrom arena sources))
    (lasts' : v.Lasts (v.callsFrom arena' sources)) :
    u.answers (u.callsFrom arena sources) = v.answers (v.callsFrom arena' sources) ∧
      (u.after (u.callsFrom arena sources)).Alike (v.after (v.callsFrom arena' sources)) := by
  induction sources generalizing u v arena arena' with
  | nil => exact ⟨rfl, alike⟩
  | cons source sources ih =>
    obtain ⟨now, later⟩ := lasts_cons.mp lasts
    obtain ⟨now', later'⟩ := lasts_cons.mp lasts'
    obtain ⟨answer, alike₁⟩ := alike.compile now now'
    obtain ⟨answers, alike₂⟩ := ih alike₁ later later'
    refine ⟨?_, alike₂⟩
    rw [callsFrom, callsFrom, CodeUnit.answers, CodeUnit.answers, answer, answers]

/-! ## More room -/

/-- There is room in the first unit whenever there is in the second. -/
structure Outlasts (u v : CodeUnit) : Prop where
  mode : u.settings.allowEscape = v.settings.allowEscape
  code : ∀ code', v.ensureCode = .ok code' → ∃ code, u.ensureCode = .ok code ∧ code.Outlasts code'
  names : ∀ names', v.ensureNames = .ok names' →
    ∃ names, u.ensureNames = .ok names ∧ names.Outlasts names'

theorem outlasts_keep (mode : u.settings.allowEscape = v.settings.allowEscape) {d d' : Draft}
    (code : d.code.Outlasts d'.code) (names : d.names.Outlasts d'.names) :
    (u.keep d).Outlasts (v.keep d') where
  mode := mode
  code := by
    rintro _ ⟨⟩
    exact ⟨d.code, rfl, code⟩
  names := by
    rintro _ ⟨⟩
    exact ⟨d.names, rfl, names⟩

/-- Two units that differ in the limit on the instructions only, before anything is compiled. -/
theorem outlasts_fresh (s : Settings) (limit : Option Nat)
    (looser : ∀ most, limit = some most → ∃ least, s.maxInstructions = some least ∧ least ≤ most) :
    ({ settings := { s with maxInstructions := limit } } : CodeUnit).Outlasts
    { settings := s } where
  mode := rfl
  code code' created := by
    obtain ⟨free, rfl⟩ := Code.create_eq_ok.mp created
    have holds : Holds 0 (max s.codeCapacity 1) := ⟨by omega, Nat.zero_le _, free⟩
    exact ⟨_, Code.create_eq_ok.mpr ⟨free, rfl⟩, rfl, looser, Nat.le_refl _, holds, holds, .refl⟩
  names names' created := by
    obtain ⟨free, rfl⟩ := NamePool.create_eq_ok.mp created
    have holds : Holds 0 (max s.nameCapacity 1) := ⟨by omega, Nat.zero_le _, free⟩
    exact ⟨_, NamePool.create_eq_ok.mpr ⟨free, rfl⟩, Nat.le_refl _, holds, holds, .refl⟩

/-- Memory lasts in the first call, and afterwards there is still room whenever there is after the
    second. -/
structure Endures (c c' : Compiled) : Prop where
  room : ∀ region, c.result ≠ .error (.outOfMemory region)
  unit : c.unit.Outlasts c'.unit
  arena : c.arena.Outlasts c'.arena

theorem compileOn_endures (mode : u.settings.allowEscape = v.settings.allowEscape)
    {code code' : Code}
    (more : code.Outlasts code') {names names' : NamePool} (fewer : names.Outlasts names')
    (arenas : arena.Outlasts arena')
    (room : ∀ region, (v.compileOn source code' names' arena').result ≠
      .error (.outOfMemory region)) :
    Endures (u.compileOn source code names arena) (v.compileOn source code' names' arena') := by
  let d : Draft := { code, names, arena, escapes := u.settings.allowEscape }
  let d' : Draft :=
    { code := code', names := names', arena := arena', escapes := v.settings.allowEscape }
  have after := source.entry_has lasting d d' ⟨more, fewer, arenas, mode⟩
  simp only [compileOn] at room ⊢
  cases hstep : (do source.compile; emitOp .ret : Compile Unit) d' with
  | ok _ e' =>
    rw [hstep] at after
    obtain ⟨_, e, same, after⟩ := after
    rw [same]
    exact ⟨fun region => by simp, outlasts_keep mode after.code after.names, after.arena⟩
  | error halt e' =>
    rw [hstep] at after room
    cases halt with
    | outOfMemory region => exact absurd rfl (room region)
    | needsWalker =>
      obtain ⟨e, same, after⟩ := after
      rw [same]
      refine ⟨fun region => by simp, outlasts_keep mode ?_ after.names, after.arena⟩
      rw [more.length]
      exact after.code.rewind _

theorem compile_of_ensured {code : Code} {names : NamePool} (hcode : u.ensureCode = .ok code)
    (hnames : u.ensureNames = .ok names) (source : Source) (arena : Arena) :
    u.compile source arena =
      { u with code := none, names := none }.compileOn source code names arena := by
  simp only [CodeUnit.compile, hcode, hnames]

/-- Unless memory runs out, there are code and names to begin with. -/
theorem exists_ensured
    (room : ∀ region, (u.compile source arena).result ≠ .error (.outOfMemory region)) :
    ∃ code names, u.ensureCode = .ok code ∧ u.ensureNames = .ok names := by
  cases hcode : u.ensureCode with
  | error region =>
    refine absurd ?_ (room region)
    simp only [CodeUnit.compile, hcode]
  | ok code =>
    cases hnames : u.ensureNames with
    | error region =>
      refine absurd ?_ (room region)
      simp only [CodeUnit.compile, hcode, hnames]
    | ok names => exact ⟨code, names, rfl, rfl⟩

/-- What can be compiled into a unit can be compiled into one with more room. -/
theorem Outlasts.compile (more : u.Outlasts v) (arenas : arena.Outlasts arena')
    (room : ∀ region, (v.compile source arena').result ≠ .error (.outOfMemory region)) :
    Endures (u.compile source arena) (v.compile source arena') := by
  obtain ⟨code', names', hcode', hnames'⟩ := exists_ensured room
  obtain ⟨code, hcode, code_more⟩ := more.code code' hcode'
  obtain ⟨names, hnames, names_more⟩ := more.names names' hnames'
  rw [compile_of_ensured hcode' hnames'] at room ⊢
  rw [compile_of_ensured hcode hnames]
  exact compileOn_endures more.mode code_more names_more arenas room

theorem Outlasts.lasts (more : u.Outlasts v) (arenas : arena.Outlasts arena')
    (lasts : v.Lasts (v.callsFrom arena' sources)) : u.Lasts (u.callsFrom arena sources) := by
  induction sources generalizing u v arena arena' with
  | nil => exact lasts
  | cons source sources ih =>
    obtain ⟨now, later⟩ := lasts_cons.mp lasts
    have endures := more.compile arenas now
    exact lasts_cons.mpr ⟨endures.room, ih endures.unit endures.arena later⟩

/-- As long as memory lasts in two units with arenas of their own, and in the same mode, all
    answers, all code and all names are the same, whatever their limits and capacities. If they
    differ only in the number of instructions that the second may have, and it may have at least as
    many, memory lasts in the second if it does in the first. -/
theorem alike_under_other_limits (s t : Settings) (sources : List Source)
    (mode : s.allowEscape = t.allowEscape) :
    let u : CodeUnit := { settings := s }
    let v : CodeUnit := { settings := t }
    let calls := u.callsFrom s.arena sources
    let calls' := v.callsFrom t.arena sources
    u.Lasts calls →
      (v.Lasts calls' → u.answers calls = v.answers calls' ∧
        (u.after calls).instructions = (v.after calls').instructions ∧
        (u.after calls).pool = (v.after calls').pool) ∧
      (t = { s with maxInstructions := t.maxInstructions } →
        (∀ most, t.maxInstructions = some most →
          ∃ least, s.maxInstructions = some least ∧ least ≤ most) →
        v.Lasts calls') := by
  intro u v calls calls' lasts
  constructor
  · intro lasts'
    have alike : u.Alike v := ⟨mode, rfl, rfl⟩
    obtain ⟨answers, after⟩ := alike.after lasts lasts'
    exact ⟨answers, after.code, after.names⟩
  · intro only looser
    have more : v.Outlasts u := by
      have fresh := outlasts_fresh s t.maxInstructions looser
      rwa [← only] at fresh
    have arenas : t.arena = s.arena := by
      rw [only]
      rfl
    exact more.lasts (.inl arenas) lasts

/-- Little room for everything. -/
def tight : Settings :=
  { codeCapacity := 1, nameCapacity := 1, maxInstructions := some 11, arenaLimit := some 100,
    allowEscape := false }

/-- A loop, a statement that needs the tree walker behind one that does not, and a sum. -/
def mixedSources : List Source :=
  [.statements [.whileLoop (.name "a") (.expression (.name "b"))] true,
    .statements [.expression (.name "c"), .ret none] true,
    .expression (.binary .add (.name "a") (.literal .null))]

/-- With little room the same is compiled as with much, and memory lasts too if there may be one
    instruction more. -/
theorem alike_under_other_limits_tight :
    let u : CodeUnit := { settings := tight }
    let v : CodeUnit := { settings := { allowEscape := false } }
    let w : CodeUnit := { settings := { tight with maxInstructions := some 12 } }
    let calls := u.callsFrom tight.arena mixedSources
    let calls' := v.callsFrom {} mixedSources
    u.answers calls = [.ok 0, .error .needsWalker, .ok 7] ∧ u.answers calls = v.answers calls' ∧
      (u.after calls).instructions = (v.after calls').instructions ∧
      (u.after calls).pool = (v.after calls').pool ∧
      w.Lasts (w.callsFrom tight.arena mixedSources) := by
  have answered : ({ settings := tight } : CodeUnit).answers
      (({ settings := tight } : CodeUnit).callsFrom tight.arena mixedSources) =
        [.ok 0, .error .needsWalker, .ok 7] := by decide +kernel
  have answered' : ({ settings := { allowEscape := false } } : CodeUnit).answers
      (({ settings := { allowEscape := false } } : CodeUnit).callsFrom {} mixedSources) =
        [.ok 0, .error .needsWalker, .ok 7] := by decide +kernel
  intro u v w calls calls'
  have lasts : u.Lasts calls := fun region => by simp [u, calls, answered]
  have lasts' : v.Lasts calls' := fun region => by simp [v, calls', answered']
  have same :=
    (alike_under_other_limits tight { allowEscape := false } mixedSources rfl lasts).1 lasts'
  have longer := (alike_under_other_limits tight { tight with maxInstructions := some 12 }
    mixedSources rfl lasts).2 rfl ?_
  · exact ⟨answered, same.1, same.2.1, same.2.2, longer⟩
  · rintro _ ⟨⟩
    exact ⟨11, rfl, by decide⟩

end CodeUnit

end StackScript
