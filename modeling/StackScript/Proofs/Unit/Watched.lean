import StackScript.Proofs.Compile.Watched

/-!
# Units that are watched

A tree is compiled into a unit by watched steps. On whatever unit, within whatever limits and
however it ends, no step is taken where it must not be, and what comes of it is what comes of
compiling.
-/

namespace StackScript

open Compile

namespace CodeUnit

/-- Compiles an entry point on the given code and names, by watched steps. The length of the entry
    point is taken only when it is not below zero, and no jump may be open at the end. -/
def compileWatchedOn (u : CodeUnit) (source : Source) (code : Code) (names : NamePool)
    (arena : Arena) : Except Slip Compiled :=
  let start := code.length
  let draft : Draft := { code, names, arena, escapes := u.settings.allowEscape }
  match (do source.lower .watched; Assembler.watched.emitOp .ret : Watched Unit)
    { draft, opened := [] } with
  | .ok () v =>
    if v.draft.code.length < start then .error (.negative start v.draft.code.length)
    else if v.opened.isEmpty then
      .ok { result := .ok start, unit := u.keep v.draft, arena := v.draft.arena,
            events := v.draft.events.push
              (.compiled source.kind start (v.draft.code.length - start)) }
    else .error (.leftOpen v.opened)
  | .error (.halt .needsWalker) v =>
    .ok { result := .error .needsWalker, unit :=
      u.keep { v.draft with code := v.draft.code.rewind start },
          arena := v.draft.arena, events := v.draft.events.push (.needsWalker source.kind start) }
  | .error (.halt (.outOfMemory region)) v =>
    .ok { result := .error (.outOfMemory region), unit := u.keep v.draft, arena := v.draft.arena,
          events := v.draft.events }
  | .error (.slip slip) _ => .error slip

/-- Compiles a tree by watched steps. -/
def compileWatched (u : CodeUnit) (source : Source) (arena : Arena) : Except Slip Compiled :=
  match u.ensureCode with
  | .error region => .ok { result := .error (.outOfMemory region), unit := u, arena, events := #[] }
  | .ok code =>
    match u.ensureNames with
    | .error region =>
      .ok { result := .error (.outOfMemory region), unit :=
        { u with code := some code }, arena, events := #[] }
    | .ok names => { u with code := none, names := none }.compileWatchedOn source code names arena

theorem compileWatchedOn_eq (u : CodeUnit) (source : Source) (code : Code) (names : NamePool)
    (arena : Arena) :
    u.compileWatchedOn source code names arena = .ok (u.compileOn source code names arena) := by
  have follows := source.entry_related Watched.mirrors
    ⟨{ code, names, arena, escapes := u.settings.allowEscape }, []⟩ (by simp [Watch.Sound])
  unfold Watched.Follows at follows
  unfold compileWatchedOn compileOn
  dsimp only at follows ⊢
  split at follows
  · rename_i d done
    obtain ⟨opened, same, settled⟩ := follows
    have long : ¬ d.code.length < code.length := by
      have longer := settled.written.length_le
      rw [← Draft.length_code, ← Draft.length_code] at longer
      exact Nat.not_lt.mpr longer
    have closed : opened = [] := settled.opened
    simp only [done, same, if_neg long, closed, List.isEmpty_nil, if_true]
  · rename_i halt d failed
    obtain ⟨opened, same, -⟩ := follows
    cases halt with
    | needsWalker => simp only [failed, same]
    | outOfMemory region => simp only [failed, same]

/-- No step of compiling is ever taken where it must not be: a jump is reserved for an operation
    that jumps, is patched only while it is reserved and does not know its target, and is never left
    open by a tree that was compiled; a jump back leads to code that is there; and no length comes
    out below zero. This is so in every unit, whatever its limits and its mode, also where memory
    runs out or a loop is taken back. -/
theorem compile_never_slips (u : CodeUnit) (source : Source) (arena : Arena) :
    source.lower .direct = source.compile ∧
      u.compileWatched source arena = .ok (u.compile source arena) := by
  refine ⟨rfl, ?_⟩
  unfold compileWatched compile
  cases u.ensureCode with
  | error region => rfl
  | ok code =>
    cases u.ensureNames with
    | error region => rfl
    | ok names => exact compileWatchedOn_eq _ source code names arena

end CodeUnit

end StackScript
