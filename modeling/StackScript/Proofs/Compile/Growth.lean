import Mathlib.Logic.Relation
import StackScript.Proofs.Compile.Structured
import StackScript.Proofs.Segment.Emission

/-!
# What compiling leaves in place

However compiling ends, the instructions and names that were there before are there afterwards, and
buffers have only been doubled. Jumps are patched and code is taken back while a tree is compiled,
and memory may run out at any moment of that; but whatever is changed stands behind the code that
the tree began with.
-/

namespace StackScript

/-! ## Buffers -/

/-- A buffer of the given capacity holds the given number of entries. -/
structure Holds (length capacity : Nat) : Prop where
  positive : 0 < capacity
  le : length ≤ capacity
  bounded : capacity < entryBound

/-- The capacity of a buffer to which an entry was added. -/
def capacityAfter (length capacity : Nat) : Nat :=
  if length == capacity then 2 * capacity else capacity

/-- The buffer need not grow for another entry, or it can. -/
def CanGrow (length capacity : Nat) : Prop :=
  length = capacity → 2 * capacity < entryBound

/-- One capacity comes from another by doubling. -/
def Doubled (small large : Nat) : Prop :=
  Relation.ReflTransGen (fun a b => b = 2 * a) small large

section Buffers

variable {length capacity length' small large : Nat}

/-- What is full doubles. -/
theorem capacityAfter_of_eq (full : length = capacity) :
    capacityAfter length capacity = 2 * capacity := by
  simp [capacityAfter, full]

/-- What is not full stays as it is. -/
theorem capacityAfter_of_ne (free : length ≠ capacity) :
    capacityAfter length capacity = capacity := by
  simp [capacityAfter, free]

/-- One more fits, if the buffer can grow. -/
theorem Holds.push (holds : Holds length capacity) (room : CanGrow length capacity) :
    Holds (length + 1) (capacityAfter length capacity) := by
  have positive := holds.positive
  have le := holds.le
  have bounded := holds.bounded
  by_cases full : length = capacity
  · have grown := room full
    rw [capacityAfter_of_eq full]
    exact ⟨by omega, by omega, grown⟩
  · rw [capacityAfter_of_ne full]
    exact ⟨positive, by omega, bounded⟩

/-- Less than what fits fits. -/
theorem Holds.shrink (holds : Holds length capacity) (shorter : length' ≤ length) :
    Holds length' capacity :=
  ⟨holds.positive, Nat.le_trans shorter holds.le, holds.bounded⟩

theorem doubled_once (n : Nat) : Doubled n (2 * n) :=
  .single rfl

theorem doubled_capacityAfter (length capacity : Nat) :
    Doubled capacity (capacityAfter length capacity) := by
  by_cases full : length = capacity
  · rw [capacityAfter_of_eq full]
    exact doubled_once capacity
  · rw [capacityAfter_of_ne full]
    exact .refl

/-- Doubling makes nothing smaller. -/
theorem Doubled.le (h : Doubled small large) : small ≤ large := by
  induction h with
  | refl => exact Nat.le_refl small
  | tail _ once ih => omega

/-- Either nothing has been doubled, or the first time can be split off. -/
theorem Doubled.eq_or (h : Doubled small large) : small = large ∨ Doubled (2 * small) large := by
  rcases h.cases_head with same | ⟨mid, once, rest⟩
  · exact .inl same
  · exact .inr (once ▸ rest)

end Buffers

namespace Code

theorem length_push (c : Code) (i : Instruction) : (c.push i).length = c.length + 1 :=
  Array.size_push _

theorem length_setOperand (c : Code) (offset : Nat) (operand : Option Operand) :
    (c.setOperand offset operand).length = c.length :=
  Array.size_modify

theorem length_rewind (c : Code) (n : Nat) : (c.rewind n).length = min n c.length := by
  simp [Code.rewind, Code.length]

/-- The limit is reached when there are as many instructions. -/
theorem isAtLimit_eq_false (c : Code) :
    c.isAtLimit = false ↔ ∀ most, c.limit = some most → c.length < most := by
  unfold isAtLimit
  cases c.limit <;> simp

/-- There is room under the limit if the buffer can hold one more. -/
theorem hasRoom_iff (c : Code) :
    c.hasRoom = true ↔ c.isAtLimit = false ∧ CanGrow c.length c.capacity := by
  simp only [hasRoom, isFull, CanGrow, Bool.and_eq_true, Bool.not_eq_true', Bool.or_eq_true,
    beq_eq_false_iff_ne, decide_eq_true_eq, imp_iff_not_or, ne_eq]

end Code

namespace NamePool

theorem length_push (p : NamePool) (text : String) : (p.push text).length = p.length + 1 :=
  Array.size_push _

/-- A name gets a place if the pool can hold one more and the place is a word. -/
theorem hasRoom_iff (p : NamePool) :
    p.hasRoom = true ↔ CanGrow p.length p.capacity ∧ p.length < wordBound := by
  simp only [hasRoom, isFull, CanGrow, Bool.and_eq_true, Bool.not_eq_true', Bool.or_eq_true,
    beq_eq_false_iff_ne, decide_eq_true_eq, imp_iff_not_or, ne_eq]

@[simp] theorem entries_makeRoom (p : NamePool) : p.makeRoom.entries = p.entries := by
  unfold makeRoom
  split <;> rfl

/-- A pool that is asked for room is doubled, or stays as it is. -/
theorem holds_makeRoom (p : NamePool) (holds : Holds p.length p.capacity) :
    Holds p.length p.makeRoom.capacity ∧ Doubled p.capacity p.makeRoom.capacity := by
  have positive := holds.positive
  have le := holds.le
  by_cases grown : p.grows = true
  · rw [makeRoom, if_pos grown]
    simp only [grows, Bool.and_eq_true, decide_eq_true_eq] at grown
    exact ⟨⟨Nat.mul_pos Nat.two_pos positive, by dsimp only; omega, grown.2⟩, doubled_once _⟩
  · rw [makeRoom, if_neg grown]
    exact ⟨holds, .refl⟩

end NamePool

/-! ## Drafts -/

theorem getElem?_mono {α : Type} {xs ys : List α} (h : xs <+: ys) {i : Nat} {x : α}
    (found : xs[i]? = some x) : ys[i]? = some x := by
  obtain ⟨more, rfl⟩ := h
  have inside : i < xs.length := (List.getElem?_eq_some_iff.mp found).1
  rw [List.getElem?_append_left inside, found]

/-- A change behind the part that is kept. -/
theorem prefix_modify {α : Type} {kept whole : List α} (h : kept <+: whole) {n : Nat}
    (behind : kept.length ≤ n)
    (f : α → α) : kept <+: whole.modify n f := by
  rw [List.prefix_iff_getElem?] at h ⊢
  intro i inside
  rw [List.getElem?_modify_ne _ _ (by omega)]
  exact h i inside

/-- The second draft has the code and the names of the first, and perhaps more behind them. -/
structure Draft.Extends (d e : Draft) : Prop where
  written : d.written <+: e.written
  added : d.added <+: e.added
  escapes : e.escapes = d.escapes
  limit : e.code.limit = d.code.limit
  arena : e.arena.limit = d.arena.limit
  code : Holds d.code.length d.code.capacity →
    Holds e.code.length e.code.capacity ∧ Doubled d.code.capacity e.code.capacity
  names : Holds d.names.length d.names.capacity →
    Holds e.names.length e.names.capacity ∧ Doubled d.names.capacity e.names.capacity

namespace Draft

variable {d e f : Draft}

theorem Extends.refl (d : Draft) : d.Extends d where
  written := List.prefix_rfl
  added := List.prefix_rfl
  escapes := rfl
  limit := rfl
  arena := rfl
  code holds := ⟨holds, .refl⟩
  names holds := ⟨holds, .refl⟩

/-- One step after another. -/
theorem Extends.trans (first : d.Extends e) (second : e.Extends f) : d.Extends f where
  written := first.written.trans second.written
  added := first.added.trans second.added
  escapes := second.escapes.trans first.escapes
  limit := second.limit.trans first.limit
  arena := second.arena.trans first.arena
  code holds := by
    obtain ⟨holds₁, doubled₁⟩ := first.code holds
    obtain ⟨holds₂, doubled₂⟩ := second.code holds₁
    exact ⟨holds₂, doubled₁.trans doubled₂⟩
  names holds := by
    obtain ⟨holds₁, doubled₁⟩ := first.names holds
    obtain ⟨holds₂, doubled₂⟩ := second.names holds₁
    exact ⟨holds₂, doubled₁.trans doubled₂⟩

/-- What was reported does not matter. -/
theorem Extends.reportGrowth (h : d.Extends e) (event : Option Event) :
    d.Extends (Compile.reportGrowth e event) := by
  cases event with
  | none => exact h
  | some event => exact ⟨h.written, h.added, h.escapes, h.limit, h.arena, h.code, h.names⟩

/-- One more instruction. -/
theorem extends_push (i : Instruction) (room : d.code.hasRoom = true) :
    d.Extends { d with code := d.code.push i } where
  written := by
    simp only [Draft.written, Code.push, Array.toList_push]
    exact List.prefix_append _ _
  added := List.prefix_rfl
  escapes := rfl
  limit := rfl
  arena := rfl
  code holds := by
    refine ⟨?_, doubled_capacityAfter _ _⟩
    dsimp only
    rw [Code.length_push]
    exact holds.push (d.code.hasRoom_iff.mp room).2
  names holds := ⟨holds, .refl⟩

/-- One more name. -/
theorem extends_intern (text : String) (room : d.names.hasRoom = true) :
    d.Extends { d with names := d.names.push text } where
  written := List.prefix_rfl
  added := by
    simp only [Draft.added, NamePool.push, Array.toList_push]
    exact List.prefix_append _ _
  escapes := rfl
  limit := rfl
  arena := rfl
  code holds := ⟨holds, .refl⟩
  names holds := by
    refine ⟨?_, doubled_capacityAfter _ _⟩
    dsimp only
    rw [NamePool.length_push]
    exact holds.push (d.names.hasRoom_iff.mp room).1

/-- Room was made for a name that could not be had. -/
theorem extends_makeRoom : d.Extends { d with names := d.names.makeRoom } where
  written := List.prefix_rfl
  added := by
    simp only [Draft.added, NamePool.entries_makeRoom]
    exact List.prefix_rfl
  escapes := rfl
  limit := rfl
  arena := rfl
  code holds := ⟨holds, .refl⟩
  names holds := by
    dsimp only
    rw [NamePool.length, NamePool.entries_makeRoom]
    exact d.names.holds_makeRoom holds

/-- An operand behind the code of the first draft is set. -/
theorem Extends.setOperand (h : d.Extends e) {offset : Nat} (behind : d.written.length ≤ offset)
    (operand : Option Operand) : d.Extends { e with code := e.code.setOperand offset operand } where
  written := by
    rw [Draft.written_setOperand]
    exact prefix_modify h.written behind _
  added := h.added
  escapes := h.escapes
  limit := h.limit
  arena := h.arena
  code holds := by
    dsimp only
    rw [Code.length_setOperand]
    exact h.code holds
  names := h.names

/-- All code behind that of the first draft is taken back. -/
theorem Extends.rewind (h : d.Extends e) :
    d.Extends { e with code := e.code.rewind d.code.length } where
  written := by
    have same : (e.code.rewind d.code.length).instructions.toList = d.written := by
      rw [toList_rewind, Draft.length_code]
      exact (List.prefix_iff_eq_take.mp h.written).symm
    exact same ▸ List.prefix_rfl
  added := h.added
  escapes := h.escapes
  limit := h.limit
  arena := h.arena
  code holds := by
    have shorter : (e.code.rewind d.code.length).length ≤ e.code.length := by
      rw [Code.length_rewind]
      exact Nat.min_le_right _ _
    obtain ⟨holds', doubled⟩ := h.code holds
    exact ⟨holds'.shrink shorter, doubled⟩
  names := h.names

/-- The mode is set for a while. -/
theorem Extends.restore {escapes : Bool} (h : Draft.Extends { d with escapes } e) :
    d.Extends { e with escapes := d.escapes } :=
  ⟨h.written, h.added, rfl, h.limit, h.arena, h.code, h.names⟩

end Draft

namespace Compile

/-- From whatever extends the draft the step leaves, however it ends, what extends the draft. If it
    gives a result, that is as told. -/
def Extending {α : Type} (d : Draft) (step : Compile α) (result : α → Prop) : Prop :=
  ∀ e, d.Extends e →
    match step e with
    | .ok a f => result a ∧ d.Extends f
    | .error _ f => d.Extends f

/-- However the step ends, what was there before stays. -/
def Keeps (step : Compile Unit) : Prop :=
  ∀ d, Extending d step fun _ => True

section Extending

variable {α β : Type} {d : Draft}

/-- One step after another. What was there before the first is there after the second. -/
theorem Extending.bind {step : Compile α} {rest : α → Compile β} {mid : α → Prop}
    {result : β → Prop} (first : Extending d step mid)
    (second : ∀ a, mid a → Extending d (rest a) result) : Extending d (step >>= rest) result := by
  intro e extends₁
  have after := first e extends₁
  simp only [Bind.bind, EStateM.bind]
  cases h : step e with
  | ok a f =>
    rw [h] at after
    exact second a after.1 f after.2
  | error halt f =>
    rw [h] at after
    exact after

theorem extending_pure {a : α} {result : α → Prop} (h : result a) :
    Extending d (pure a : Compile α) result :=
  fun _ extends₁ => ⟨h, extends₁⟩

theorem extending_throw (halt : Halt) (result : α → Prop) :
    Extending d (throw halt : Compile α) result :=
  fun _ extends₁ => extends₁

theorem extending_position : Extending d position fun offset => d.written.length ≤ offset := by
  intro e extends₁
  refine ⟨?_, extends₁⟩
  rw [Draft.length_code]
  exact extends₁.written.length_le

/-- Writing an instruction keeps what was there, also when there is no room for it. -/
theorem extending_emit (i : Instruction) : Extending d (emit i) fun _ => True := by
  intro e extends₁
  simp only [emit]
  by_cases room : e.code.hasRoom = true
  · rw [if_pos room]
    exact ⟨trivial, (extends₁.trans (Draft.extends_push i room)).reportGrowth _⟩
  · rw [if_neg room]
    exact extends₁

/-- Adding a name keeps what was there. The pool may have grown when the name is refused. -/
theorem extending_intern (text : String) : Extending d (intern text) fun _ => True := by
  intro e extends₁
  simp only [intern]
  by_cases room : e.names.hasRoom = true
  · rw [if_pos room]
    exact ⟨trivial, (extends₁.trans (Draft.extends_intern text room)).reportGrowth _⟩
  · rw [if_neg room]
    exact (extends₁.trans Draft.extends_makeRoom).reportGrowth _

/-- Only the operand of one instruction changes, which was written since. -/
theorem extending_patchJump {offset : Nat} (behind : d.written.length ≤ offset) :
    Extending d (patchJump offset) fun _ => True :=
  fun _ extends₁ => ⟨trivial, extends₁.setOperand behind _⟩

/-- A reserved jump is behind all that was there. -/
theorem extending_reserveJump (op : Op) :
    Extending d (reserveJump op) fun offset => d.written.length ≤ offset := by
  apply extending_position.bind
  intro offset behind
  apply (extending_emit _).bind
  intro _ _
  exact extending_pure behind

end Extending

end Compile

/-- Room in the arena is made without touching its limit. -/
theorem Arena.limit_of_reserve {a b : Arena} {size : Nat} (h : a.reserve size = .ok b) :
    b.limit = a.limit := by
  unfold Arena.reserve at h
  split at h
  · cases h
    rfl
  · split at h
    · cases h
      rfl
    · split at h
      · cases h
        rfl
      · cases h

namespace Compile

/-- A copied text leaves the code and the names as they are. -/
theorem extending_copy {d : Draft} (text : String) : Extending d (copy text) fun _ => True := by
  intro e extends₁
  simp only [copy, Arena.copy]
  cases h : e.arena.reserve text.utf8ByteSize with
  | ok arena =>
    have limit := (Arena.limit_of_reserve h).trans extends₁.arena
    refine ⟨trivial, ?_⟩
    exact ⟨extends₁.written, extends₁.added, extends₁.escapes, extends₁.limit, limit, extends₁.code,
      extends₁.names⟩
  | error region => exact extends₁

/-- A statement that is handed over. -/
theorem keeps_escape (tree : Statement) : Keeps (escape tree) := by
  intro d e extends₁
  simp only [escape]
  by_cases escapes : e.escapes = true
  · rw [if_pos escapes]
    exact extending_emit _ e extends₁
  · rw [if_neg escapes]
    exact extends₁

/-- The code of a loop may be taken back, but not what stood before it. -/
theorem keeps_loop (tree : Statement) {body : Compile Unit} (h : Keeps body) :
    Keeps (loop tree body) := by
  intro d e extends₁
  have inner := h { e with escapes := false } _ (.refl _)
  simp only [loop]
  cases hbody : body { e with escapes := false } with
  | ok _ f =>
    rw [hbody] at inner
    exact ⟨trivial, extends₁.trans inner.2.restore⟩
  | error halt f =>
    rw [hbody] at inner
    cases halt with
    | outOfMemory region => exact extends₁.trans (Draft.Extends.restore inner)
    | needsWalker =>
      apply keeps_escape tree d
      have back := (Draft.Extends.restore inner).rewind
      have whole := extends₁.trans back
      exact ⟨whole.written, whole.added, whole.escapes, whole.limit, whole.arena, whole.code,
        whole.names⟩

/-- Whatever is compiled, and however that ends, what was there before stays. -/
theorem keeps : Structured Keeps where
  nothing _ := extending_pure trivial
  seq first second d := (first d).bind fun _ _ => second d
  emit i _ := extending_emit i
  named _ text _ _ := (extending_intern text).bind fun _ _ => extending_emit _
  copied text _ rest d := (extending_copy text).bind fun copied _ => rest copied d
  overflow _ := extending_throw _ _
  skip op _ body d := by
    apply (extending_reserveJump op).bind
    intro toEnd behind
    exact (body d).bind fun _ _ => extending_patchJump behind
  branch op _ _ consequent alternate d := by
    apply (extending_reserveJump op).bind
    intro toAlternate behind₁
    refine (consequent d).bind fun _ _ => (extending_reserveJump .jump).bind ?_
    intro toEnd behind₂
    refine (extending_patchJump behind₁).bind fun _ _ => ?_
    exact (alternate d).bind fun _ _ => extending_patchJump behind₂
  cycle test body d := by
    refine extending_position.bind fun start _ => (test d).bind fun _ _ => ?_
    apply (extending_reserveJump .jumpIfFalse).bind
    intro toEnd behind
    refine (body d).bind fun _ _ => (extending_emit _).bind fun _ _ => ?_
    exact extending_patchJump behind
  forever body d :=
    extending_position.bind fun _ _ => (body d).bind fun _ _ => extending_emit _
  report _ _ e extends₁ := ⟨trivial, extends₁.reportGrowth (some _)⟩
  escape := keeps_escape
  loop tree _ body := keeps_loop tree body

/-- The draft that a step leaves, however it ends. -/
def left {α : Type} : EStateM.Result Halt Draft α → Draft
  | .ok _ d => d
  | .error _ d => d

/-- What was there is there whatever comes of the step. -/
theorem Keeps.extends_left {step : Compile Unit} (h : Keeps step) (d : Draft) :
    d.Extends (left (step d)) := by
  have after := h d d (.refl d)
  cases hstep : step d with
  | ok _ e =>
    rw [hstep] at after
    exact after.2
  | error halt e =>
    rw [hstep] at after
    exact after

end Compile

end StackScript
