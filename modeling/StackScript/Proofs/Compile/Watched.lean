import StackScript.Proofs.Compile.Growth
import StackScript.Proofs.Compile.Lowering

/-!
# Watched compiling

The steps of compiling rely on being used in the right way: only a jump may be reserved, only a jump
that is still open may be patched, a jump back may not lead ahead, and code may not have become
shorter while a loop was compiled. Here each step looks first whether it may be taken, and stops
everything if not. None ever does: watched compiling does what compiling does, however that ends.
-/

namespace StackScript

open Compile

/-- What a step may not be asked for. -/
inductive Slip where
  /-- To reserve a jump for an operation that does not jump. -/
  | noJump (op : Op)
  /-- To jump back to where there is no code yet. -/
  | ahead (target position : Nat)
  /-- To patch what is not reserved: it was patched before, or taken back, or never was a jump. -/
  | notReserved (offset : Nat)
  /-- To count instructions from a start behind the end. -/
  | negative (start length : Nat)
  /-- To end with jumps that do not know their target. -/
  | leftOpen (offsets : List Nat)

/-- Why watched compiling stops. -/
inductive Trouble where
  | halt (halt : Halt)
  | slip (slip : Slip)

/-- A draft, and the reserved jumps in it that were not patched yet. -/
structure Watch where
  draft : Draft
  opened : List Nat

/-- Watched steps. -/
abbrev Watched := EStateM Trouble Watch

/-- A jump at the offset does not know its target. -/
def Draft.isPending (d : Draft) (offset : Nat) : Bool :=
  match d.code.instructions[offset]? with
  | some { operand := some .pending, .. } => true
  | _ => false

namespace Watched

/-- A step for which there is nothing to look at. -/
def free {α : Type} (step : Compile α) : Watched α :=
  fun v =>
    match step v.draft with
    | .ok a d => .ok a { v with draft := d }
    | .error halt d => .error (.halt halt) { v with draft := d }

/-- Goes on if this holds, and else reports a slip. -/
def require (holds : Watch → Bool) (slip : Watch → Slip) : Watched Unit :=
  fun v => if holds v then .ok () v else .error (.slip (slip v)) v

/-- Only a jump can be reserved. It is open until its target is set. -/
def reserveJump (op : Op) : Watched Nat := do
  require (fun _ => op.isJump) fun _ => .noJump op
  let offset ← free (Compile.reserveJump op)
  modify fun v => { v with opened := offset :: v.opened }
  return offset

/-- A jump back has a target that has been reached. -/
def jumpBack (op : Op) (target : Nat) : Watched Unit := do
  require (fun v => target ≤ v.draft.code.length) fun v => .ahead target v.draft.code.length
  free (emitWith op (.jump target))

/-- Only a jump that is open and has no target yet is patched, and it is not open any more. -/
def patchJump (offset : Nat) : Watched Unit := do
  require (fun v => v.opened.contains offset && v.draft.isPending offset) fun _ =>
    .notReserved offset
  free (Compile.patchJump offset)
  modify fun v => { v with opened := v.opened.erase offset }

/-- The jumps that were reserved in code that is taken back are not open any more. -/
def loop (tree : Statement) (body : Watched Unit) : Watched Unit :=
  fun v =>
    let start := v.draft.code.length
    let outer := v.draft.escapes
    match body { v with draft := { v.draft with escapes := false } } with
    | .ok () w => .ok () { w with draft := { w.draft with escapes := outer } }
    | .error (.halt .needsWalker) w =>
      if start ≤ w.draft.code.length then
        free (escape tree) {
          draft := {
            w.draft with
            code := w.draft.code.rewind start
            escapes := outer
            events := w.draft.events.push
              (.escapedLoop tree.kind start (w.draft.code.length - start)) }
          opened := w.opened.filter (· < start) }
      else .error (.slip (.negative start w.draft.code.length)) w
    | .error trouble w => .error trouble { w with draft := { w.draft with escapes := outer } }

end Watched

/-- The steps of compiling, each of which looks first. -/
def Assembler.watched : Assembler Trouble Watch where
  position := Watched.free Compile.position
  report event := Watched.free (Compile.report event)
  emit i := Watched.free (Compile.emit i)
  reserveJump := Watched.reserveJump
  jumpBack := Watched.jumpBack
  patchJump := Watched.patchJump
  intern text := Watched.free (Compile.intern text)
  copy text := Watched.free (Compile.copy text)
  overflow := Watched.free (throw (.outOfMemory .instructions))
  escape tree := Watched.free (Compile.escape tree)
  loop := Watched.loop

/-! ## What is open -/

namespace Draft

/-- What it is to be pending, in terms of what is written. -/
theorem isPending_iff {d : Draft} {offset : Nat} :
    d.isPending offset = true ↔ ∃ i, d.written[offset]? = some i ∧ i.operand = some .pending := by
  rw [isPending, written, Array.getElem?_toList]
  split
  · rename_i found
    simp [found]
  · rename_i other
    constructor
    · intro h
      cases h
    · rintro ⟨⟨op, operand, extra⟩, found, rfl⟩
      exact (other op extra found).elim

theorem lt_of_isPending {d : Draft} {offset : Nat} (h : d.isPending offset = true) :
    offset < d.written.length := by
  obtain ⟨i, found, -⟩ := isPending_iff.mp h
  exact (List.getElem?_eq_some_iff.mp found).1

/-- What is written behind a jump leaves it as it is. -/
theorem isPending_of_prefix {d e : Draft} {offset : Nat} (longer : d.written <+: e.written)
    (h : d.isPending offset = true) : e.isPending offset = true := by
  obtain ⟨i, found, pending⟩ := isPending_iff.mp h
  exact isPending_iff.mpr ⟨i, getElem?_mono longer found, pending⟩

/-- Setting another operand leaves a jump open. -/
theorem isPending_of_modify {d e : Draft} {offset other : Nat} {f : Instruction → Instruction}
    (patched : e.written = d.written.modify other f) (ne : other ≠ offset)
    (h : d.isPending offset = true) :
    e.isPending offset = true := by
  rw [isPending_iff] at h ⊢
  rw [patched, List.getElem?_modify_ne _ _ ne]
  exact h

end Draft

namespace Watch

/-- The open jumps are in the code. -/
def Sound (v : Watch) : Prop :=
  ∀ offset ∈ v.opened, offset < v.draft.written.length

/-- Code was written behind that of the first draft, and jumps may have been reserved in it. -/
structure Extends (v w : Watch) : Prop where
  written : v.draft.written <+: w.draft.written
  opened : ∃ more, w.opened = more ++ v.opened ∧ ∀ offset ∈ more, v.draft.written.length ≤ offset

/-- Code was written, and none of its jumps is open. -/
structure Settles (v w : Watch) : Prop where
  written : v.draft.written <+: w.draft.written
  opened : w.opened = v.opened

/-- Code was written behind that of the first draft, and of its jumps only the one at the offset is
    open. -/
structure Awaits (v : Watch) (offset : Nat) (w : Watch) : Prop where
  written : v.draft.written <+: w.draft.written
  opened : w.opened = offset :: v.opened
  behind : v.draft.written.length ≤ offset
  pending : w.draft.isPending offset = true

variable {u v w : Watch} {offset : Nat}

theorem Settles.extends (h : v.Settles w) : v.Extends w :=
  ⟨h.written, [], by simpa using h.opened, by simp⟩

theorem Settles.refl (v : Watch) : v.Settles v :=
  ⟨List.prefix_rfl, rfl⟩

theorem Extends.refl (v : Watch) : v.Extends v :=
  (Settles.refl v).extends

/-- One step after another. -/
theorem Settles.trans (first : u.Settles v) (second : v.Settles w) : u.Settles w :=
  ⟨first.written.trans second.written, second.opened.trans first.opened⟩

/-- What is open stays pending, when nothing is open in the end that was not before. -/
theorem Settles.sound (h : v.Settles w) (sound : v.Sound) : w.Sound := by
  intro offset mem
  rw [h.opened] at mem
  exact Nat.lt_of_lt_of_le (sound offset mem) h.written.length_le

theorem Extends.trans (first : u.Extends v) (second : v.Extends w) : u.Extends w := by
  obtain ⟨more, opened, behind⟩ := first.opened
  obtain ⟨more', opened', behind'⟩ := second.opened
  refine ⟨first.written.trans second.written, more' ++ more, ?_, ?_⟩
  · rw [opened', opened, List.append_assoc]
  · intro offset mem
    rcases List.mem_append.mp mem with mem | mem
    · exact Nat.le_trans first.written.length_le (behind' offset mem)
    · exact behind offset mem

theorem Awaits.extends (h : v.Awaits offset w) : v.Extends w :=
  ⟨h.written, [offset], h.opened, by simpa using h.behind⟩

/-- The new jump is pending as well. -/
theorem Awaits.sound (h : v.Awaits offset w) (sound : v.Sound) : w.Sound := by
  intro other mem
  rw [h.opened] at mem
  rcases List.mem_cons.mp mem with rfl | mem
  · exact Draft.lt_of_isPending h.pending
  · exact Nat.lt_of_lt_of_le (sound other mem) h.written.length_le

/-- More code was written while the jump is open. -/
theorem Awaits.settles (h : u.Awaits offset v) (settled : v.Settles w) : u.Awaits offset w where
  written := h.written.trans settled.written
  opened := settled.opened.trans h.opened
  behind := h.behind
  pending := Draft.isPending_of_prefix settled.written h.pending

/-- A step before a jump is reserved. -/
theorem Settles.awaits (settled : u.Settles v) (h : v.Awaits offset w) : u.Awaits offset w where
  written := settled.written.trans h.written
  opened := settled.opened ▸ h.opened
  behind := Nat.le_trans settled.written.length_le h.behind
  pending := h.pending

/-- When the code behind the first draft is taken back, its own jumps are open again. -/
theorem Extends.filter_opened (h : v.Extends w) (sound : v.Sound) :
    w.opened.filter (· < v.draft.written.length) = v.opened := by
  obtain ⟨more, opened, behind⟩ := h.opened
  have gone : more.filter (· < v.draft.written.length) = [] := by
    simpa [List.filter_eq_nil_iff] using behind
  have kept : v.opened.filter (· < v.draft.written.length) = v.opened := by
    rw [List.filter_eq_self]
    exact fun offset mem => decide_eq_true (sound offset mem)
  rw [opened, List.filter_append, gone, kept, List.nil_append]

end Watch

/-! ## Steps that follow -/

namespace Watched

open Watch

/-- From the second watch on, the watched step does what the step does. If that gives a result, the
    condition holds; if it fails, the first watch was extended. -/
def Follows {α : Type} (u : Watch) (watched : Watched α) (step : Compile α) (v : Watch)
    (post : α → Watch → Prop) :
    Prop :=
  match step v.draft with
  | .ok a d => ∃ opened, watched v = .ok a ⟨d, opened⟩ ∧ post a ⟨d, opened⟩
  | .error halt d => ∃ opened, watched v = .error (.halt halt) ⟨d, opened⟩ ∧ u.Extends ⟨d, opened⟩

section Follows

variable {α β : Type} {u v w : Watch}

/-- One step after another. -/
theorem Follows.bind {watched : Watched α} {step : Compile α} {rest : α → Watched β}
    {rest' : α → Compile β}
    {mid : α → Watch → Prop} {post : β → Watch → Prop} (first : Follows u watched step v mid)
    (second : ∀ a w, mid a w → Follows u (rest a) (rest' a) w post) :
    Follows u (watched >>= rest) (step >>= rest') v post := by
  unfold Follows at first ⊢
  simp only [Bind.bind, EStateM.bind]
  cases h : step v.draft with
  | ok a d =>
    rw [h] at first
    obtain ⟨opened, same, reached⟩ := first
    rw [same]
    exact second a _ reached
  | error halt d =>
    rw [h] at first
    obtain ⟨opened, same, failed⟩ := first
    rw [same]
    exact ⟨opened, rfl, failed⟩

/-- A weaker condition, and an earlier beginning. -/
theorem Follows.mono {watched : Watched α} {step : Compile α} {post post' : α → Watch → Prop}
    (h : Follows v watched step w post) (extended : u.Extends v)
    (imp : ∀ a x, post a x → post' a x) :
    Follows u watched step w post' := by
  unfold Follows at h ⊢
  split at h
  · obtain ⟨opened, same, reached⟩ := h
    exact ⟨opened, same, imp _ _ reached⟩
  · obtain ⟨opened, same, failed⟩ := h
    exact ⟨opened, same, extended.trans failed⟩

theorem follows_pure {a : α} {post : α → Watch → Prop} (h : post a v) :
    Follows u (pure a : Watched α) (pure a) v post :=
  ⟨v.opened, rfl, h⟩

/-- There is nothing to look at, and nothing is reserved. -/
theorem follows_free {step : Compile α} {result : α → Prop} (h : Extending v.draft step result) :
    Follows v (free step) step v fun a w => result a ∧ v.Settles w := by
  have after := h v.draft (.refl _)
  unfold Follows free
  cases same : step v.draft with
  | ok a d =>
    rw [same] at after
    exact ⟨v.opened, rfl, after.1, after.2.written, rfl⟩
  | error halt d =>
    rw [same] at after
    exact ⟨v.opened, rfl, (⟨after.written, rfl⟩ : v.Settles ⟨d, v.opened⟩).extends⟩

/-- What holds is no slip. -/
theorem require_of {holds : Watch → Bool} {slip : Watch → Slip} (h : holds v = true) :
    require holds slip v = .ok () v := by
  simp [require, h]

/-- The test in front of a step is passed. -/
theorem Follows.required {holds : Watch → Bool} {slip : Watch → Slip} {watched : Watched α}
    {step : Compile α}
    {post : α → Watch → Prop} (h : Follows u watched step v post) (passes : holds v = true) :
    Follows u (do require holds slip; watched) step v post := by
  have same : (do require holds slip; watched) v = watched v := by
    show EStateM.bind _ _ v = _
    rw [EStateM.bind, require_of passes]
  unfold Follows at h ⊢
  rw [same]
  exact h

theorem follows_position :
    Follows u (free Compile.position) Compile.position v fun start w =>
      start = v.draft.written.length ∧ w = v :=
  ⟨v.opened, rfl, v.draft.length_code, rfl⟩

/-- A jump that is reserved is awaited. -/
theorem follows_reserveJump {op : Op} (jumps : op.isJump = true) :
    Follows v (Watched.reserveJump op) (Compile.reserveJump op) v fun offset w =>
      v.Awaits offset w := by
  refine Follows.required ?_ jumps
  have reserved : Meets (Compile.reserveJump op) v.draft _ fun _ => True := meets_reserveJump op
  have kept := extending_reserveJump op v.draft (.refl _)
  unfold Follows
  simp only [Bind.bind, EStateM.bind, free]
  cases h : Compile.reserveJump op v.draft with
  | ok offset d =>
    rw [Meets, h] at reserved
    obtain ⟨rfl, grown⟩ := reserved
    refine ⟨_ :: v.opened, rfl, ?_, rfl, Nat.le_refl _, ?_⟩
    · exact grown.written ▸ List.prefix_append _ _
    · rw [Draft.isPending_iff, grown.written]
      exact ⟨_, List.getElem?_concat_length, rfl⟩
  | error halt d =>
    rw [h] at kept
    exact ⟨v.opened, rfl, (⟨kept.written, rfl⟩ : v.Settles ⟨d, v.opened⟩).extends⟩

/-- A jump that is open and pending can be patched, and is not open any more. -/
theorem follows_patchJump {offset : Nat} (opened : offset ∈ v.opened)
    (pending : v.draft.isPending offset = true) :
    Follows u (Watched.patchJump offset) (Compile.patchJump offset) v fun _ w =>
      w.opened = v.opened.erase offset ∧
        ∃ f, w.draft.written = v.draft.written.modify offset f := by
  refine Follows.required ?_ ?_
  · exact ⟨v.opened.erase offset, rfl, rfl, _, v.draft.written_setOperand offset _⟩
  · simp [opened, pending]

/-- The open jump is patched. -/
theorem follows_patch {offset : Nat} (h : v.Awaits offset w) :
    Follows v (Watched.patchJump offset) (Compile.patchJump offset) w fun _ x => v.Settles x := by
  have opened : offset ∈ w.opened := h.opened ▸ List.mem_cons_self
  refine (follows_patchJump opened h.pending).mono (.refl v) ?_
  rintro _ x ⟨rest, f, patched⟩
  refine ⟨?_, ?_⟩
  · rw [patched]
    exact prefix_modify h.written h.behind f
  · rw [rest, h.opened, List.erase_cons_head]

/-- Of two open jumps the outer one is patched. -/
theorem follows_patch_outer {outer inner : Nat} (h₁ : v.Awaits outer w) {x : Watch}
    (h₂ : w.Awaits inner x) :
    Follows v (Watched.patchJump outer) (Compile.patchJump outer) x fun _ y =>
      v.Awaits inner y := by
  have before : outer < inner := Nat.lt_of_lt_of_le (Draft.lt_of_isPending h₁.pending) h₂.behind
  have both : x.opened = inner :: outer :: v.opened := by rw [h₂.opened, h₁.opened]
  have opened : outer ∈ x.opened := by simp [both]
  refine (follows_patchJump opened (Draft.isPending_of_prefix h₂.written h₁.pending)).mono
    (.refl v) ?_
  rintro _ y ⟨rest, f, patched⟩
  refine ⟨?_, ?_, ?_, ?_⟩
  · rw [patched]
    exact prefix_modify (h₁.written.trans h₂.written) h₁.behind f
  · rw [rest, both, List.erase_cons_tail (by simpa using Nat.ne_of_gt before), List.erase_cons_head]
  · exact Nat.le_of_lt (Nat.lt_of_le_of_lt h₁.behind before)
  · exact Draft.isPending_of_modify patched (Nat.ne_of_lt before) h₂.pending

/-- A jump back is no slip if its target has been reached. -/
theorem follows_jumpBack {op : Op} {target : Nat} (back : target ≤ v.draft.written.length) :
    Follows v (Watched.jumpBack op target) (emitWith op (.jump target)) v fun _ w =>
      v.Settles w := by
  refine Follows.required ?_ ?_
  · exact (follows_free (extending_emit _)).mono (.refl v) fun _ _ h => h.2
  · simpa using back

end Follows

/-- The watched step does what the step does, and leaves no jump open behind it. -/
def Mirrors (watched : Watched Unit) (step : Compile Unit) : Prop :=
  ∀ v : Watch, v.Sound → Follows v watched step v fun _ w => v.Settles w

theorem mirrors_free {step : Compile Unit} (h : Keeps step) : Mirrors (free step) step :=
  fun v _ => (follows_free (h v.draft)).mono (.refl v) fun _ _ h => h.2

/-- One step after another. -/
theorem Mirrors.seq {first second : Watched Unit} {first' second' : Compile Unit}
    (h₁ : Mirrors first first')
    (h₂ : Mirrors second second') : Mirrors (do first; second) (do first'; second') := by
  intro v sound
  apply (h₁ v sound).bind
  intro _ w settled
  exact (h₂ w (settled.sound sound)).mono settled.extends fun _ _ => settled.trans

/-- Code is written while a jump is open. -/
theorem Mirrors.follows_awaiting {body : Watched Unit} {body' : Compile Unit}
    (h : Mirrors body body') {v w : Watch}
    {offset : Nat} (sound : v.Sound) (awaits : v.Awaits offset w) :
    Follows v body body' w fun _ x => v.Awaits offset x :=
  (h w (awaits.sound sound)).mono awaits.extends fun _ _ => awaits.settles

/-- A free step, and what follows it. -/
theorem Mirrors.after {α : Type} {step : Compile α} {rest : α → Watched Unit}
    {rest' : α → Compile Unit}
    {result : α → Prop} (h₁ : ∀ d, Extending d step result) (h₂ : ∀ a, Mirrors (rest a) (rest' a)) :
    Mirrors (free step >>= rest) (step >>= rest') := by
  intro v sound
  apply (follows_free (h₁ v.draft)).bind
  rintro a w ⟨-, settled⟩
  exact (h₂ a w (settled.sound sound)).mono settled.extends fun _ _ => settled.trans

/-- The one jump of a body that may be skipped is patched at its end. -/
theorem Mirrors.skip {op : Op} {body : Watched Unit} {body' : Compile Unit}
    (jumps : op.isJump = true)
    (h : Mirrors body body') :
    Mirrors (do
      let toEnd ← Watched.reserveJump op
      body
      Watched.patchJump toEnd) (do
      let toEnd ← Compile.reserveJump op
      body'
      Compile.patchJump toEnd) := by
  intro v sound
  apply (follows_reserveJump jumps).bind
  intro toEnd w₁ reserved
  apply (h.follows_awaiting sound reserved).bind
  intro _ w₂ awaits
  exact follows_patch awaits

/-- The jump to the alternate is patched while the one to the end is open. -/
theorem Mirrors.branch {op : Op} {consequent alternate : Watched Unit}
    {consequent' alternate' : Compile Unit}
    (jumps : op.isJump = true) (h₁ : Mirrors consequent consequent')
    (h₂ : Mirrors alternate alternate') :
    Mirrors (do
      let toAlternate ← Watched.reserveJump op
      consequent
      let toEnd ← Watched.reserveJump .jump
      Watched.patchJump toAlternate
      alternate
      Watched.patchJump toEnd) (do
      let toAlternate ← Compile.reserveJump op
      consequent'
      let toEnd ← Compile.reserveJump .jump
      Compile.patchJump toAlternate
      alternate'
      Compile.patchJump toEnd) := by
  intro v sound
  apply (follows_reserveJump jumps).bind
  intro toAlternate w₁ reserved
  apply (h₁.follows_awaiting sound reserved).bind
  intro _ w₂ awaits
  apply ((follows_reserveJump rfl).mono awaits.extends fun _ _ => id).bind
  intro toEnd w₃ inner
  apply (follows_patch_outer awaits inner).bind
  intro _ w₄ last
  apply (h₂.follows_awaiting sound last).bind
  intro _ w₅ awaits'
  exact follows_patch awaits'

/-- The jump out of a loop is patched behind the jump back. -/
theorem Mirrors.cycle {test body : Watched Unit} {test' body' : Compile Unit}
    (h₁ : Mirrors test test')
    (h₂ : Mirrors body body') :
    Mirrors (do
      let start ← free Compile.position
      test
      let toEnd ← Watched.reserveJump .jumpIfFalse
      body
      Watched.jumpBack .jump start
      Watched.patchJump toEnd) (do
      let start ← Compile.position
      test'
      let toEnd ← Compile.reserveJump .jumpIfFalse
      body'
      Compile.emitWith .jump (.jump start)
      Compile.patchJump toEnd) := by
  intro u sound
  apply follows_position.bind
  rintro start v ⟨rfl, rfl⟩
  apply (h₁ v sound).bind
  intro _ w₁ settled
  apply ((follows_reserveJump rfl).mono settled.extends fun _ _ => settled.awaits).bind
  intro toEnd w₂ reserved
  apply (h₂.follows_awaiting sound reserved).bind
  intro _ w₃ awaits
  apply ((follows_jumpBack awaits.written.length_le).mono awaits.extends fun _ _ =>
    awaits.settles).bind
  intro _ w₄ awaits'
  exact follows_patch awaits'

/-- A loop without a test has only the jump back. -/
theorem Mirrors.forever {body : Watched Unit} {body' : Compile Unit} (h : Mirrors body body') :
    Mirrors (do
      let start ← free Compile.position
      body
      Watched.jumpBack .jump start) (do
      let start ← Compile.position
      body'
      Compile.emitWith .jump (.jump start)) := by
  intro u sound
  apply follows_position.bind
  rintro start v ⟨rfl, rfl⟩
  apply (h v sound).bind
  intro _ w settled
  exact (follows_jumpBack settled.written.length_le).mono settled.extends fun _ _ => settled.trans

/-- A loop that is taken back was not shorter than nothing, and takes its open jumps with it. -/
theorem Mirrors.loop (tree : Statement) {body : Watched Unit} {body' : Compile Unit}
    (h : Mirrors body body') :
    Mirrors (Watched.loop tree body) (Compile.loop tree body') := by
  intro v sound
  have inner := h ⟨{ v.draft with escapes := false }, v.opened⟩ sound
  unfold Follows at inner
  cases hbody : body' { v.draft with escapes := false } with
  | ok _ d =>
    rw [hbody] at inner
    obtain ⟨opened, same, settled⟩ := inner
    simp only [Follows, Compile.loop, Watched.loop, hbody, same]
    exact ⟨opened, rfl, settled.written, settled.opened⟩
  | error halt d =>
    rw [hbody] at inner
    obtain ⟨opened, same, extended⟩ := inner
    cases halt with
    | outOfMemory region =>
      simp only [Follows, Compile.loop, Watched.loop, hbody, same]
      exact ⟨opened, rfl, extended.written, extended.opened⟩
    | needsWalker =>
      have long : v.draft.code.length ≤ d.code.length := by
        rw [Draft.length_code, Draft.length_code]
        exact extended.written.length_le
      have rewound : Watch.Settles v ⟨{
          d with
          code := d.code.rewind v.draft.code.length
          escapes := v.draft.escapes
          events := d.events.push (.escapedLoop tree.kind v.draft.code.length
            (d.code.length - v.draft.code.length)) }, opened.filter (· < v.draft.code.length)⟩ := by
        refine ⟨?_, ?_⟩
        · rw [Draft.written, Draft.written, toList_rewind, Draft.length_code]
          exact List.prefix_take_iff.mpr ⟨extended.written, Nat.le_refl _⟩
        · rw [Draft.length_code]
          exact extended.filter_opened sound
      have escaped :=
        (mirrors_free (keeps_escape tree) _ (rewound.sound sound)).mono rewound.extends
        fun _ _ => rewound.trans
      simp only [Follows, Compile.loop, Watched.loop, hbody, same, if_pos long]
      exact escaped

/-- Whatever is compiled, and however that ends: watching it changes nothing. -/
theorem mirrors : Assembler.watched.Structured Mirrors where
  nothing v _ := follows_pure (.refl v)
  seq := Mirrors.seq
  emit _ _ := mirrors_free (keeps.emit _)
  named _ _ _ _ := .after (fun _ => extending_intern _) fun _ => mirrors_free (keeps.emit _)
  copied _ _ _ rest := .after (fun _ => extending_copy _) rest
  overflow := mirrors_free keeps.overflow
  skip := Mirrors.skip
  branch _ := Mirrors.branch
  cycle := Mirrors.cycle
  forever := Mirrors.forever
  report event := mirrors_free (keeps.report event)
  escape tree := mirrors_free (keeps_escape tree)
  loop := Mirrors.loop
  ret := mirrors_free (keeps.emit _)

end Watched

end StackScript
