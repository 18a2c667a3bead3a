import StackScript.Proofs.Machine.Kinds
import StackScript.Proofs.Meaning.Compiled
import StackScript.Proofs.Unit.History

/-!
# Values and references in compiled code

The stack check counts slots, and does not tell a value from a reference. Compiled code does not
need to be checked for that: each instruction of an entry point has one shape of the stack, and the
operands that it needs, so that no run of it meets a slot or an operand of the wrong kind.
-/

namespace StackScript

open StackCheck Running

/-- The code from the start to a return at `stop` has the given shapes. The stack is empty at the
    start, each instruction finds the kinds of slots that it takes and leaves those that it gives,
    on each way on from it, and the return sees one value. -/
structure Shaped (code : Array Instruction) (shape : Nat → Shape) (start stop : Nat) : Prop where
  empty : shape start = []
  typed : Typed code shape start stop start stop
  returns : code[stop]? = some { op := .ret }
  single : shape stop = [.value]
  operands : ∀ o i, start ≤ o → o ≤ stop → code[o]? = some i → i.HasOperands

theorem suits_of_kinds {top : List Slot} {kinds : Shape} (h : top.map Slot.kind = kinds) :
    List.Forall₂ (Slot.Suits True) top kinds := by
  subst h
  exact List.forall₂_map_right_iff.mpr (List.forall₂_same.mpr fun _ _ _ => rfl)

section Shaped

variable {code : Runnable} {shape : Nat → Shape} {start stop o : Nat} {i : Instruction}
  {top rest : List Slot} {r : Running} {s : Shape}

/-- The stack of the machine has the shape of the offset. -/
structure Running.Fits (shape : Nat → Shape) (start stop : Nat) (r : Running) : Prop where
  above : start ≤ r.offset
  below : r.offset ≤ stop
  kinds : r.stack.map Slot.kind = shape r.offset

theorem Shaped.fits_entered {code : Array Instruction} (h : Shaped code shape start stop)
    (le : start ≤ stop) (m : Machine) :
    (CodeUnit.entered m start).Fits shape start stop :=
  ⟨le_rfl, le, h.empty.symm⟩

theorem Instruction.Turns.eq_append {s' : Shape} (turns : i.Turns (i.takes ++ s) s') :
    s' = i.gives ++ s := by
  obtain ⟨below, same, rfl⟩ := turns
  rw [List.append_cancel_left same]

/-- Where an instruction leads, the stack has the shape again. -/
theorem Instruction.Agrees.fits (agrees : i.Agrees shape start stop o) (above : start ≤ o)
    (below : o < stop) (leads : i.Leads o top rest r) (taken : top.map Slot.kind = i.takes)
    (kinds : (top ++ rest).map Slot.kind = shape o) : r.Fits shape start stop := by
  have split : shape o = i.takes ++ rest.map Slot.kind := by
    rw [← kinds, List.map_append, taken]
  cases leads with
  | onward stays falls offset given =>
    obtain ⟨new, stack, gives⟩ := given
    have turns := agrees.onward falls
    rw [split] at turns
    refine ⟨by omega, by omega, ?_⟩
    rw [stack, offset, turns.eq_append, List.map_append, gives]
  | taken jumps target stack =>
    obtain ⟨t, operand, hlo, hhi, turns⟩ := agrees.taken jumps
    obtain ⟨-, operand'⟩ := Instruction.target?_eq_some.mp target
    obtain rfl : t = r.offset := by simpa [operand] using operand'
    rw [split] at turns
    refine ⟨hlo, hhi, ?_⟩
    rw [stack, turns.eq_append]
    rcases jumps with hop | hop <;> simp [Instruction.gives, hop]
  | kept jumps target stack =>
    obtain ⟨t, operand, hlo, hhi, same⟩ := agrees.kept jumps
    obtain ⟨-, operand'⟩ := Instruction.target?_eq_some.mp target
    obtain rfl : t = r.offset := by simpa [operand] using operand'
    refine ⟨hlo, hhi, ?_⟩
    rw [stack, kinds, same]

/-- The return stops the run. -/
theorem Shaped.next_return (shaped : Shaped code.instructions shape start stop) {stack : List Slot}
    (kinds : stack.map Slot.kind = shape stop) (m : Machine) :
    ∃ halt r, Step.next code ⟨m, stack, stop⟩ = .error halt r ∧ halt.Allowed True := by
  rw [shaped.single] at kinds
  have ends := Step.next_ends shaped.returns (suits_of_kinds kinds) (fun _ => rfl) nofun
    (fun _ => rfl) m
  rw [List.append_nil] at ends
  cases h : Step.next code ⟨m, stack, stop⟩ with
  | error halt r =>
    rw [h] at ends
    exact ⟨halt, r, rfl, ends⟩
  | ok _ r =>
    rw [h] at ends
    cases ends with
    | onward stays => exact absurd rfl stays
    | taken jumps => simp at jumps
    | kept jumps => simp at jumps

/-- A step from a stack of the right shape leads to another, or stops without having met a wrong
    kind. -/
theorem Shaped.next_fits (shaped : Shaped code.instructions shape start stop) (r : Running)
    (fits : r.Fits shape start stop) :
    match Step.next code r with
    | .ok () r' => r'.Fits shape start stop
    | .error halt _ => halt.Allowed True := by
  obtain ⟨m, stack, o⟩ := r
  obtain ⟨above, below, kinds⟩ := fits
  dsimp only at above below kinds
  by_cases last : o = stop
  · subst last
    obtain ⟨halt, r', next, allowed⟩ := shaped.next_return kinds m
    rw [next]
    exact allowed
  · obtain ⟨i, found, agrees⟩ := shaped.typed o above (by omega)
    have operands := shaped.operands o i above below found
    obtain ⟨s, split⟩ := agrees.enough
    obtain ⟨top, rest, rfl, taken, -⟩ := List.map_eq_append_iff.mp (kinds.trans split.symm)
    have target (jumps : i.op.isJump = true) : ∃ t, i.target? = some t := by
      obtain ⟨t, operand, -⟩ := agrees.exists_target jumps
      exact ⟨t, Instruction.target?_eq_some.mpr ⟨jumps, operand⟩⟩
    have balanced (hop : i.op = .ret) : rest = [] := absurd hop agrees.stays
    have ends := Step.next_ends found (suits_of_kinds taken) (fun _ => operands) target balanced m
    cases next : Step.next code ⟨m, top ++ rest, o⟩ with
    | ok _ r' =>
      rw [next] at ends
      exact agrees.fits above (by omega) ends taken kinds
    | error halt r' =>
      rw [next] at ends
      exact ends

/-- More code does not change the shapes. -/
theorem Shaped.mono {code code' : Array Instruction} (h : Shaped code shape start stop)
    (more : ∀ (o : Nat) i, code[o]? = some i → code'[o]? = some i) :
    Shaped code' shape start stop where
  empty := h.empty
  typed o above below := by
    obtain ⟨i, found, agrees⟩ := h.typed o above below
    exact ⟨i, more o i found, agrees⟩
  returns := more _ _ h.returns
  single := h.single
  operands o i above below found := by
    have here : ∃ j, code[o]? = some j := by
      by_cases last : o = stop
      · exact ⟨_, last ▸ h.returns⟩
      · obtain ⟨j, found', -⟩ := h.typed o above (by omega)
        exact ⟨j, found'⟩
    obtain ⟨j, found'⟩ := here
    obtain rfl : j = i := Option.some.inj ((more o j found').symm.trans found)
    exact h.operands o j above below found'

/-- Where an instruction takes a value, there is one. -/
theorem Shaped.exists_value {code : Array Instruction} (h : Shaped code shape start stop)
    (fits : r.Fits shape start stop) (found : code[r.offset]? = some i)
    (takes : i.takes = [.value]) :
    ∃ x rest, r.stack = .value x :: rest := by
  have top : ∃ s, shape r.offset = .value :: s := by
    by_cases last : r.offset = stop
    · exact ⟨[], last ▸ h.single⟩
    · have below := fits.below
      obtain ⟨j, here, agrees⟩ := h.typed _ fits.above (by omega)
      obtain rfl : j = i := Option.some.inj (here.symm.trans found)
      obtain ⟨s, split⟩ := agrees.enough
      exact ⟨s, by rw [← split, takes, List.singleton_append]⟩
  obtain ⟨s, top⟩ := top
  obtain ⟨slot, rest, stack, kind, -⟩ := List.map_eq_cons_iff.mp (fits.kinds.trans top)
  cases slot with
  | value x => exact ⟨x, rest, stack⟩
  | reference _ => cases kind

end Shaped

theorem Source.yields (source : Source) : source.segment.Yields Instruction.HasOperands := by
  cases source with
  | expression tree => exact tree.yields.mono fun _ => Instruction.IsPlain.operands
  | statements body asBlock =>
    exact block_yields (fun _ => Instruction.IsPlain.operands) _ (.inl fun _ => rfl)

namespace CodeUnit

variable {u v : CodeUnit} {source : Source} {arena : Arena} {start : Nat}

theorem Adds.mem_entry (added : u.Adds source start v) {o : Nat} {i : Instruction}
    (above : start ≤ o)
    (found : v.instructions[o]? = some i) : i ∈ u.entry source := by
  have length : u.instructions.toList.length ≤ o := by
    rw [Array.length_toList]
    exact added.start_eq.symm.trans_le above
  rw [← Array.getElem?_toList, added.code, List.getElem?_append_right length] at found
  exact List.mem_of_getElem? found

theorem Adds.hasOperands (added : u.Adds source start v) {o : Nat} {i : Instruction}
    (above : start ≤ o) (found : v.instructions[o]? = some i) : i.HasOperands := by
  rcases List.mem_append.mp (added.mem_entry above found) with inner | last
  · exact source.yields _ _ i inner
  · obtain rfl := List.mem_singleton.mp last
    rfl

theorem Adds.exists_shaped (added : u.Adds source start v) :
    ∃ shape, Shaped v.instructions shape start (stopOf source start) := by
  obtain ⟨shape, empty, single, typed⟩ := added.exists_typed
  exact ⟨shape, {
    empty, typed, single
    returns := added.stands.2
    operands := fun _ _ above _ found => added.hasOperands above found }⟩

/-- Each instruction of an entry point has one shape of the stack, and the operands that it needs.
    The paths that the check follows stay in the entry point and have the depths of the shapes; and
    along every run the slots on the stack are of the kinds that the shape says. -/
theorem compile_shaped (h : (u.compile source arena).result = .ok start) :
    let v := (u.compile source arena).unit
    ∃ shape stop, stop + 1 = v.length ∧ Shaped v.instructions shape start stop ∧
      (∀ spot, Reachable v.instructions start spot → start ≤ spot.offset ∧ spot.offset ≤ stop ∧
        spot.depth = (shape spot.offset).length) ∧
      ∀ m : Machine,
        (∀ k r, Steps v.runnable k (entered m start) r → r.stack.map Slot.kind = shape r.offset) ∧
        ∀ budget f, ((entered m start).run v.runnable budget).stop = .fault f →
          f.isLost = false ∧ f.isMistyped = false := by
  intro v
  have added := adds_of_compile_eq_ok h
  have le : start ≤ stopOf source start := Nat.le_add_right _ _
  obtain ⟨shape, shaped⟩ := added.exists_shaped
  refine ⟨shape, stopOf source start, added.size_eq.symm, shaped, ?_, fun m => ?_⟩
  · exact fun spot => depth_of_reachable shaped.typed le shaped.empty shaped.returns
  · have shaped' : Shaped v.runnable.instructions shape start (stopOf source start) := shaped
    have begins : (entered m start).Fits shape start (stopOf source start) :=
      ⟨le_rfl, le, shaped.empty.symm⟩
    obtain ⟨along, stops⟩ := run_keeps shaped'.next_fits begins
    constructor
    · exact fun k r steps => (along k r steps).kinds
    · intro budget f stop
      have allowed := stops budget
      rw [stop] at allowed
      exact ⟨allowed.1, allowed.2 trivial⟩

/-- An element of an array is set to what one of two branches gives, while its place stays on the
    stack. -/
def choiceIntoElement : Source :=
  .expression (.assignment .assign (.index (.name "a") (.name "i"))
    (.conditional (.name "c") (.call (.name "f") [.name "x", .name "y"]) (.name "z")))

theorem compile_shaped_choiceIntoElement :
    (({} : CodeUnit).compile choiceIntoElement {}).result = .ok 0 ∧
      ∃ shape, Shaped (({} : CodeUnit).compile choiceIntoElement {}).unit.instructions shape 0 13 ∧
        ∀ (m : Machine) budget f,
          ((entered m 0).run (({} : CodeUnit).compile choiceIntoElement {}).unit.runnable
            budget).stop = .fault f → f.isMistyped = false := by
  have accepted : (({} : CodeUnit).compile choiceIntoElement {}).result = .ok 0 := by decide +kernel
  have length : (({} : CodeUnit).compile choiceIntoElement {}).unit.length = 14 := by decide +kernel
  obtain ⟨shape, stop, last, shaped, -, runs⟩ := compile_shaped accepted
  obtain rfl : stop = 13 := Nat.succ.inj (last.trans length)
  exact ⟨accepted, shape, shaped, fun m budget f h => ((runs m).2 budget f h).2⟩

end CodeUnit

end StackScript
