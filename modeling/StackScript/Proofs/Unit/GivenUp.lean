import StackScript.Proofs.Unit.Isolated
import StackScript.Proofs.Unit.Limits

/-!
# Sources that are given up

A source that needs the tree walker, and may not be left to it, is given up after code was written,
buffers have grown and names were added for it. Only the names stay. So without it everything else
is compiled as before, but for the places of names.
-/

namespace StackScript

open Compile

/-- The operands are the same, but for names, which have the same text among the names of their
    units. -/
inductive Operand.SameText (names names' : List String) : Operand → Operand → Prop
  | name {k k' : Nat} {text : String} (here : names[k]? = some text)
      (there : names'[k']? = some text) :
    SameText names names' (.name k) (.name k')
  | same {a : Operand} (unnamed : ∀ k, a ≠ .name k) : SameText names names' a a

theorem Operand.SameText.extend {names names' more more' : List String} {a b : Operand}
    (h : SameText names names' a b) (longer : names <+: more) (longer' : names' <+: more') :
    SameText more more' a b := by
  cases h with
  | name here there => exact .name (getElem?_mono longer here) (getElem?_mono longer' there)
  | same unnamed => exact .same unnamed

/-- A segment refers to its own names wherever it stands. -/
theorem Segment.relates_sameText (s : Segment) (o : Nat) (before before' : List String) :
    s.Relates (Operand.SameText (before ++ s.names) (before' ++ s.names)) o before.length o
      before'.length where
  fixed _ unnamed _ := .same unnamed
  names k text found := by
    have place (texts : List String) : (texts ++ s.names)[texts.length + k]? = some text := by
      rw [List.getElem?_append_right (Nat.le_add_right _ _), Nat.add_sub_cancel_left, found]
    exact .name (place before) (place before')
  targets _ _ := .same fun _ => by simp

namespace CodeUnit

variable {u v : CodeUnit} {source : Source} {sources : List Source} {arena arena' : Arena}

/-- The answer to a source that was given up. -/
def givenUp : Except CompileError Nat → Bool
  | .error .needsWalker => true
  | _ => false

/-- The sources that were not given up. -/
def remaining (sources : List Source) (answers : List (Except CompileError Nat)) : List Source :=
  ((sources.zip answers).filter fun answered => !givenUp answered.2).map Prod.fst

theorem remaining_cons (source : Source) (sources : List Source) (answer : Except CompileError Nat)
    (answers : List (Except CompileError Nat)) :
    remaining (source :: sources) (answer :: answers) =
      if givenUp answer then remaining sources answers
        else source :: remaining sources answers := by
  cases h : givenUp answer <;> simp [remaining, h]

/-! ## Memory -/

/-- Compiling does not change the limit of the arena. -/
theorem limit_arena_compile (u : CodeUnit) (source : Source) (arena : Arena) :
    (u.compile source arena).arena.limit = arena.limit := by
  unfold compile
  cases u.ensureCode with
  | error region => rfl
  | ok code =>
    cases u.ensureNames with
    | error region => rfl
    | ok names =>
      obtain ⟨e, grown, -, arena_eq⟩ :=
        { u with code := none, names := none }.compileOn_keeps source code names arena
      dsimp only
      rw [arena_eq]
      exact grown.arena

/-- There is no more room when a source was given up than without it. -/
theorem Outlasts.without (more : v.Outlasts u)
    (stopped : (u.compile source arena).result = .error .needsWalker) :
    v.Outlasts (u.compile source arena).unit := by
  have left := leaves_of_compile_eq_error stopped
  have room : ∀ region, (u.compile source arena).result ≠ .error (.outOfMemory region) := by
    simp [stopped]
  obtain ⟨code', names', hcode', hnames'⟩ := exists_ensured room
  obtain ⟨code, hcode, code_more⟩ := more.code code' hcode'
  obtain ⟨names, hnames, names_more⟩ := more.names names' hnames'
  obtain ⟨e, grown, unit, -⟩ :=
    { u with code := none, names := none }.compileOn_keeps source code' names' arena
  rw [compile_of_ensured hcode' hnames', unit] at left ⊢
  have length : e.code.length = code'.length := by
    have same : e.code.instructions = code'.instructions :=
      left.code.trans (ensureCode_eq_ok hcode').symm
    rw [Code.length, Code.length, same]
  refine ⟨more.mode, ?_, ?_⟩
  · rintro _ ⟨⟩
    exact ⟨code, hcode, code_more.extended grown length⟩
  · rintro _ ⟨⟩
    exact ⟨names, hnames, names_more.extended grown⟩

/-! ## Code -/

/-- The second unit has the code of the first, but for the places of names, and no less room. -/
structure Mirrors (u v : CodeUnit) : Prop where
  room : v.Outlasts u
  code : List.Forall₂ (Instruction.Corresponds (Operand.SameText u.pool v.pool))
    u.instructions.toList v.instructions.toList

theorem Mirrors.length (h : u.Mirrors v) : u.length = v.length := by
  have same := h.code.length_eq
  rwa [Array.length_toList, Array.length_toList] at same

/-- What corresponds still does when names are added. -/
theorem Mirrors.code_extend (h : u.Mirrors v) {more more' : List String} (longer : u.pool <+: more)
    (longer' : v.pool <+: more') :
    List.Forall₂ (Instruction.Corresponds (Operand.SameText more more'))
      u.instructions.toList v.instructions.toList :=
  h.code.imp fun _ _ alike => alike.imp fun _ _ same => same.extend longer longer'

/-- A source is given up in the first unit, and not compiled into the second. -/
theorem Mirrors.without (h : u.Mirrors v)
    (stopped : (u.compile source arena).result = .error .needsWalker) :
    (u.compile source arena).unit.Mirrors v where
  room := h.room.without stopped
  code := by
    have left := leaves_of_compile_eq_error stopped
    rw [left.code]
    exact h.code_extend (u.compile_extends source arena).names List.prefix_rfl

/-- A source is compiled into both units. -/
theorem Mirrors.compile (h : u.Mirrors v) (arenas : arena'.Outlasts arena) {start : Nat}
    (accepted : (u.compile source arena).result = .ok start) :
    (v.compile source arena').result = .ok start ∧
      (u.compile source arena).unit.Mirrors (v.compile source arena').unit := by
  have room : ∀ region, (u.compile source arena).result ≠ .error (.outOfMemory region) := by
    simp [accepted]
  have endures := h.room.compile arenas room
  rcases both_add_or_leave h.room.mode.symm room endures.room with
    ⟨answer, answer', added, added'⟩ | ⟨answer, -⟩
  · constructor
    · rw [answer', ← h.length, ← answer, accepted]
    · refine ⟨endures.unit, ?_⟩
      have old := h.code_extend (u.compile_extends source arena).names
        (v.compile_extends source arena').names
      have new := source.segment.place_corresponds
        (source.segment.relates_sameText u.length u.pool v.pool)
      rw [added.code, added'.code]
      refine List.rel_append old (List.rel_append ?_ (.cons ⟨rfl, .none, rfl⟩ .nil))
      rw [added.names, added'.names, ← h.length]
      exact new
  · rw [accepted] at answer
    cases answer

/-- All that is not given up in the first unit is compiled into the second. -/
theorem Mirrors.after (h : u.Mirrors v) (unlimited : arena'.limit = none)
    (lasts : u.Lasts (u.callsFrom arena sources)) :
    let calls := u.callsFrom arena sources
    let calls' := v.callsFrom arena' (remaining sources (u.answers calls))
    v.answers calls' = (u.answers calls).filter (fun answer => !givenUp answer) ∧
      (u.after calls).Mirrors (v.after calls') := by
  induction sources generalizing u v arena arena' with
  | nil => exact ⟨rfl, h⟩
  | cons source sources ih =>
    obtain ⟨now, later⟩ := lasts_cons.mp lasts
    simp only [callsFrom, CodeUnit.answers, CodeUnit.after, remaining_cons]
    rcases adds_or_leaves now with ⟨accepted, -⟩ | ⟨stopped, -⟩
    · obtain ⟨accepted', mirrors⟩ := h.compile (.inr unlimited) accepted
      have kept : givenUp (u.compile source arena).result = false := by
        rw [accepted]
        rfl
      have unlimited' := (v.limit_arena_compile source arena').trans unlimited
      obtain ⟨answers, after⟩ := ih mirrors unlimited' later
      simp only [kept, Bool.false_eq_true, if_false, callsFrom, CodeUnit.answers, CodeUnit.after]
      refine ⟨?_, after⟩
      rw [List.filter_cons_of_pos (by simp [kept]), accepted, accepted', answers]
    · have dropped : givenUp (u.compile source arena).result = true := by
        rw [stopped]
        rfl
      obtain ⟨answers, after⟩ := ih (h.without stopped) unlimited later
      simp only [dropped, if_true]
      refine ⟨?_, after⟩
      rw [List.filter_cons_of_neg (by simp [dropped]), answers]

/-- What was not given up was compiled, as long as memory lasts. -/
theorem exists_ok_of_mem_filter {calls : List (Source × Arena)} (lasts : u.Lasts calls)
    {answer : Except CompileError Nat}
    (mem : answer ∈ (u.answers calls).filter fun answer => !givenUp answer) :
    ∃ start, answer = .ok start := by
  obtain ⟨answered, kept⟩ := List.mem_filter.mp mem
  cases answer with
  | ok start => exact ⟨start, rfl⟩
  | error e =>
    cases e with
    | needsWalker => cases kept
    | outOfMemory region => exact absurd answered (lasts region)

/-- Sources that are given up leave no trace in the code: as long as memory lasts, all the others
    are compiled to the same offsets without them, and the code is the same, but for the places of
    names. -/
theorem compile_without_givenUp (settings : Settings) (arena : Arena)
    (unlimited : arena.limit = none)
    (sources : List Source) :
    let u : CodeUnit := { settings }
    let calls := u.callsFrom arena sources
    let calls' := u.callsFrom arena (remaining sources (u.answers calls))
    u.Lasts calls →
      (∀ answer ∈ u.answers calls', ∃ start, answer = .ok start) ∧
      u.answers calls' = (u.answers calls).filter (fun answer => !givenUp answer) ∧
      List.Forall₂ (Instruction.Corresponds
          (Operand.SameText (u.after calls).pool (u.after calls').pool))
        (u.after calls).instructions.toList (u.after calls').instructions.toList := by
  intro u calls calls' lasts
  have fresh : u.Mirrors u := by
    refine ⟨outlasts_fresh settings settings.maxInstructions ?_, .nil⟩
    exact fun most limit => ⟨most, limit, Nat.le_refl most⟩
  obtain ⟨answers, after⟩ := fresh.after unlimited lasts
  refine ⟨?_, answers, after.code⟩
  intro answer mem
  rw [answers] at mem
  exact exists_ok_of_mem_filter lasts mem

/-- Without the statement that needs the tree walker, the sum refers to another place for its
    name. -/
theorem compile_without_givenUp_tight :
    let u : CodeUnit := { settings := tight }
    let calls := u.callsFrom {} mixedSources
    let calls' := u.callsFrom {} (remaining mixedSources (u.answers calls))
    u.answers calls = [.ok 0, .error .needsWalker, .ok 7] ∧
      u.answers calls' = [.ok 0, .ok 7] ∧
      (u.after calls).pool = ["a", "b", "c", "a"] ∧ (u.after calls').pool = ["a", "b", "a"] ∧
      List.Forall₂ (Instruction.Corresponds (Operand.SameText ["a", "b", "c", "a"] ["a", "b", "a"]))
        (u.after calls).instructions.toList (u.after calls').instructions.toList := by
  have answered : ({ settings := tight } : CodeUnit).answers
      (({ settings := tight } : CodeUnit).callsFrom {} mixedSources) =
        [.ok 0, .error .needsWalker, .ok 7] := by decide +kernel
  have names : (({ settings := tight } : CodeUnit).after
      (({ settings := tight } : CodeUnit).callsFrom {} mixedSources)).pool =
        ["a", "b", "c", "a"] := by decide +kernel
  have names' : (({ settings := tight } : CodeUnit).after
      (({ settings := tight } : CodeUnit).callsFrom {} (remaining mixedSources
        [.ok 0, .error .needsWalker, .ok 7]))).pool = ["a", "b", "a"] := by
    decide +kernel
  have kept : [.ok 0, .error .needsWalker, .ok 7].filter (fun answer => !givenUp answer) =
      [.ok 0, .ok 7] := rfl
  have lasts : ({ settings := tight } : CodeUnit).Lasts
      (({ settings := tight } : CodeUnit).callsFrom {} mixedSources) := fun region => by
    simp [answered]
  have without := compile_without_givenUp tight {} rfl mixedSources lasts
  dsimp only at without ⊢
  rw [answered, names, names', kept] at without
  rw [answered]
  exact ⟨rfl, without.2.1, names, names', without.2.2⟩

end CodeUnit

end StackScript
