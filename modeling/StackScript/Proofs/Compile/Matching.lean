import Mathlib.Data.Option.Defs
import StackScript.Proofs.Compile.Growth

/-!
# Steps that match

Two steps match if they end in the same way, and leave drafts that differ only in what equal
instructions differ in: in numbers, of which the two zeros are equal, and in the trees that
instructions refer to.
-/

namespace StackScript

/-- Equal instructions are still equal when another first operand, equal to itself, is set in
    both. -/
theorem Instruction.same_setOperand {i j : Instruction} (h : i.same j = true)
    {operand : Option Operand}
    (equal : Operand.same? operand operand = true) :
    Instruction.same { i with operand } { j with operand } = true := by
  simp only [Instruction.same, Bool.and_eq_true] at h ⊢
  exact ⟨⟨h.1.1, equal⟩, h.2⟩

/-! ## Drafts -/

/-- The instructions before an offset are the same, and those behind it are equal. -/
structure Code.Matches (n : Nat) (c c' : Code) : Prop where
  capacity : c.capacity = c'.capacity
  limit : c.limit = c'.limit
  length : c.length = c'.length
  least : n ≤ c.length
  old : ∀ k, k < n → c.instructions[k]? = c'.instructions[k]?
  new : ∀ k, n ≤ k → Option.Rel (fun i j => i.same j = true) c.instructions[k]? c'.instructions[k]?

/-- The drafts are the same but for numbers and trees in the code behind an offset. -/
structure Draft.Matches (n : Nat) (d d' : Draft) : Prop where
  code : d.code.Matches n d'.code
  names : d.names = d'.names
  arena : d.arena = d'.arena
  escapes : d.escapes = d'.escapes
  events : d.events = d'.events

namespace Code

variable {n : Nat} {c c' : Code}

theorem matches_refl (c : Code) : c.Matches c.length c where
  capacity := rfl
  limit := rfl
  length := rfl
  least := Nat.le_refl _
  old _ _ := rfl
  new k behind := by
    rw [Array.getElem?_eq_none behind]
    exact .none

theorem Matches.isFull (h : c.Matches n c') : c.isFull = c'.isFull := by
  rw [Code.isFull, Code.isFull, h.length, h.capacity]

/-- There is room in both or in neither. -/
theorem Matches.hasRoom (h : c.Matches n c') : c.hasRoom = c'.hasRoom := by
  rw [Code.hasRoom, Code.hasRoom, Code.isAtLimit, Code.isAtLimit, h.isFull, h.capacity,
    h.length, h.limit]

/-- Both grow at once. -/
theorem Matches.growth? (h : c.Matches n c') : c.growth? = c'.growth? := by
  rw [Code.growth?, Code.growth?, h.isFull, h.capacity]

/-- One more instruction in each. -/
theorem Matches.push (h : c.Matches n c') {i j : Instruction} (equal : i.same j = true) :
    (c.push i).Matches n (c'.push j) where
  capacity := by
    simp only [Code.push, h.isFull, h.capacity]
  limit := h.limit
  length := by rw [length_push, length_push, h.length]
  least := by
    rw [length_push]
    exact Nat.le_succ_of_le h.least
  old k below := by
    have least := h.least
    have least' := h.length ▸ least
    have other : k ≠ c.instructions.size := by
      have : n ≤ c.instructions.size := least
      omega
    have other' : k ≠ c'.instructions.size := by
      have : n ≤ c'.instructions.size := least'
      omega
    simp only [Code.push, Array.getElem?_push, other, other', if_false]
    exact h.old k below
  new k behind := by
    have length : c.instructions.size = c'.instructions.size := h.length
    simp only [Code.push, Array.getElem?_push, length]
    by_cases last : k = c'.instructions.size
    · rw [if_pos last, if_pos last]
      exact .some equal
    · rw [if_neg last, if_neg last]
      exact h.new k behind

/-- The same operand in each. -/
theorem Matches.setOperand (h : c.Matches n c') (offset : Nat) (operand : Option Operand)
    (equal : Operand.same? operand operand = true) :
    (c.setOperand offset operand).Matches n (c'.setOperand offset operand) where
  capacity := h.capacity
  limit := h.limit
  length := by rw [length_setOperand, length_setOperand, h.length]
  least := by
    rw [length_setOperand]
    exact h.least
  old k below := by
    simp only [Code.setOperand, Array.getElem?_modify, h.old k below]
  new k behind := by
    have here := h.new k behind
    simp only [Code.setOperand, Array.getElem?_modify]
    by_cases patched : offset = k
    · rw [if_pos patched, if_pos patched]
      cases hi : c.instructions[k]? <;> cases hj : c'.instructions[k]? <;> rw [hi, hj] at here
      · exact .none
      · cases here
      · cases here
      · cases here with
        | some same => exact .some (Instruction.same_setOperand same equal)
    · rw [if_neg patched, if_neg patched]
      exact here

/-- What is left when code is taken back. -/
theorem getElem?_rewind (c : Code) (m k : Nat) :
    (c.rewind m).instructions[k]? = if k < m then c.instructions[k]? else none := by
  rw [← Array.getElem?_toList, toList_rewind, List.getElem?_take, Array.getElem?_toList]

/-- Both are taken back to the same offset. -/
theorem Matches.rewind (h : c.Matches n c') {m : Nat} (least : n ≤ m) :
    (c.rewind m).Matches n (c'.rewind m) where
  capacity := h.capacity
  limit := h.limit
  length := by rw [length_rewind, length_rewind, h.length]
  least := by
    rw [length_rewind]
    exact Nat.le_min.mpr ⟨least, h.least⟩
  old k below := by rw [getElem?_rewind, getElem?_rewind, h.old k below]
  new k behind := by
    rw [getElem?_rewind, getElem?_rewind]
    by_cases left : k < m
    · rw [if_pos left, if_pos left]
      exact h.new k behind
    · rw [if_neg left, if_neg left]
      exact .none

end Code

namespace Draft

variable {n : Nat} {d d' : Draft}

theorem matches_refl (d : Draft) : d.Matches d.code.length d :=
  ⟨d.code.matches_refl, rfl, rfl, rfl, rfl⟩

theorem Matches.reportGrowth (h : d.Matches n d') (event : Option Event) :
    (Compile.reportGrowth d event).Matches n (Compile.reportGrowth d' event) := by
  cases event with
  | none => exact h
  | some event => exact ⟨h.code, h.names, h.arena, h.escapes, congrArg (·.push event) h.events⟩

end Draft

/-! ## Steps -/

namespace Compile

/-- Two steps end in the same way, with the same result and matching drafts. -/
def Ends {α : Type} (n : Nat) : EStateM.Result Halt Draft α → EStateM.Result Halt Draft α → Prop
  | .ok a d, .ok b d' => a = b ∧ d.Matches n d'
  | .error halt d, .error halt' d' => halt = halt' ∧ d.Matches n d'
  | _, _ => False

/-- From matching drafts the two steps end in the same way. -/
def Matching {α : Type} (n : Nat) (step step' : Compile α) : Prop :=
  ∀ d d', d.Matches n d' → Ends n (step d) (step' d')

section Matching

variable {α β : Type} {n : Nat}

/-- One step after another, on both sides. -/
theorem Matching.bind {step step' : Compile α} {rest rest' : α → Compile β}
    (first : Matching n step step') (second : ∀ a, Matching n (rest a) (rest' a)) :
    Matching n (step >>= rest) (step' >>= rest') := by
  intro d d' h
  have after := first d d' h
  simp only [Bind.bind, EStateM.bind]
  cases hs : step d with
  | ok a e =>
    cases hs' : step' d' with
    | ok b e' =>
      rw [hs, hs'] at after
      obtain ⟨rfl, h'⟩ := after
      exact second a e e' h'
    | error halt' e' =>
      rw [hs, hs'] at after
      cases after
  | error halt e =>
    cases hs' : step' d' with
    | ok b e' =>
      rw [hs, hs'] at after
      cases after
    | error halt' e' =>
      rw [hs, hs'] at after
      exact after

theorem matching_pure (a : α) : Matching n (pure a) (pure a) :=
  fun _ _ h => ⟨rfl, h⟩

theorem matching_throw (halt : Halt) : Matching n (throw halt : Compile α) (throw halt) :=
  fun _ _ h => ⟨rfl, h⟩

theorem matching_position : Matching n position position :=
  fun _ _ h => ⟨h.code.length, h⟩

theorem matching_report (event : Event) : Matching n (report event) (report event) :=
  fun _ _ h => ⟨rfl, h.reportGrowth (some event)⟩

/-- Instructions that are equal up to the sign of a zero. -/
theorem matching_emit {i j : Instruction} (equal : i.same j = true) :
    Matching n (emit i) (emit j) := by
  intro d d' h
  simp only [emit, h.code.hasRoom, h.code.growth?]
  by_cases room : d'.code.hasRoom = true
  · rw [if_pos room, if_pos room]
    have pushed :
        Draft.Matches n { d with code := d.code.push i } { d' with code := d'.code.push j } :=
      ⟨h.code.push equal, h.names, h.arena, h.escapes, h.events⟩
    exact ⟨rfl, pushed.reportGrowth _⟩
  · rw [if_neg room, if_neg room]
    exact ⟨rfl, h⟩

theorem matching_emitOp (op : Op) : Matching n (emitOp op) (emitOp op) :=
  matching_emit (by simp [Instruction.same, Operand.same?])

theorem matching_emitWith (op : Op) {a b : Operand} (equal : a.same b = true) :
    Matching n (emitWith op a) (emitWith op b) :=
  matching_emit (by simp [Instruction.same, Operand.same?, equal])

/-- The same name gets the same place. -/
theorem matching_intern (text : String) : Matching n (intern text) (intern text) := by
  intro d d' h
  simp only [intern, h.names]
  by_cases room : d'.names.hasRoom = true
  · rw [if_pos room, if_pos room]
    have pushed : Draft.Matches n { d with names := d'.names.push text }
        { d' with names := d'.names.push text } :=
      ⟨h.code, rfl, h.arena, h.escapes, h.events⟩
    exact ⟨rfl, pushed.reportGrowth _⟩
  · rw [if_neg room, if_neg room]
    have room : Draft.Matches n { d with names := d'.names.makeRoom }
        { d' with names := d'.names.makeRoom } :=
      ⟨h.code, rfl, h.arena, h.escapes, h.events⟩
    exact ⟨rfl, room.reportGrowth _⟩

theorem matching_emitName (op : Op) (text : String) :
    Matching n (emitName op text) (emitName op text) :=
  (matching_intern text).bind fun index => matching_emitWith op (by simp [Operand.same])

theorem matching_copy (text : String) : Matching n (copy text) (copy text) := by
  intro d d' h
  simp only [copy, h.arena]
  cases d'.arena.copy text with
  | ok copied => exact ⟨rfl, h.code, h.names, rfl, h.escapes, h.events⟩
  | error region => exact ⟨rfl, h⟩

/-- The same jump gets the same target. -/
theorem matching_patchJump (offset : Nat) : Matching n (patchJump offset) (patchJump offset) := by
  intro d d' h
  have patched := h.code.setOperand offset (some (.jump d'.code.length))
    (by simp [Operand.same?, Operand.same])
  simp only [patchJump, h.code.length]
  exact ⟨rfl, patched, h.names, h.arena, h.escapes, h.events⟩

theorem matching_reserveJump (op : Op) : Matching n (reserveJump op) (reserveJump op) :=
  matching_position.bind fun offset =>
    (matching_emitWith op (by simp [Operand.same])).bind fun _ => matching_pure offset

theorem matching_jumpBack (start : Nat) :
    Matching n (emitWith .jump (.jump start)) (emitWith .jump (.jump start)) :=
  matching_emitWith .jump (by simp [Operand.same])

theorem matching_misuse (kind : Misuse) : Matching n (misuse kind) (misuse kind) :=
  matching_emitWith .throwMisuse (by simp [Operand.same])

theorem matching_emitCount (op : Op) (count : Nat) :
    Matching n (emitCount op count) (emitCount op count) := by
  unfold emitCount Assembler.emitCount
  split
  · exact matching_emitWith op (by simp [Operand.same])
  · exact matching_throw _

/-- Statements that are equal are handed over alike. -/
theorem matching_escape {s t : Statement} (equal : s.same t = true) :
    Matching n (escape s) (escape t) := by
  intro d d' h
  simp only [escape, h.escapes]
  by_cases escapes : d'.escapes = true
  · rw [if_pos escapes, if_pos escapes]
    exact matching_emitWith .escape (by simpa [Operand.same] using equal) d d' h
  · rw [if_neg escapes, if_neg escapes]
    exact ⟨rfl, h⟩

/-- Loops that are taken back are taken back to the same offset, and equal trees are left to the
    tree walker. -/
theorem matching_loop {s t : Statement} (equal : s.same t = true) (kind : s.kind = t.kind)
    {body body' : Compile Unit} (inner : Matching n body body') :
    Matching n (loop s body) (loop t body') := by
  intro d d' h
  have inside : Draft.Matches n { d with escapes := false } { d' with escapes := false } :=
    ⟨h.code, h.names, h.arena, rfl, h.events⟩
  have after := inner _ _ inside
  simp only [loop]
  cases hs : body { d with escapes := false } with
  | ok _ e =>
    cases hs' : body' { d' with escapes := false } with
    | ok _ e' =>
      rw [hs, hs'] at after
      obtain ⟨-, h'⟩ := after
      exact ⟨rfl, h'.code, h'.names, h'.arena, h.escapes, h'.events⟩
    | error halt' e' =>
      rw [hs, hs'] at after
      cases after
  | error halt e =>
    cases hs' : body' { d' with escapes := false } with
    | ok _ e' =>
      rw [hs, hs'] at after
      cases after
    | error halt' e' =>
      rw [hs, hs'] at after
      obtain ⟨rfl, h'⟩ := after
      cases halt with
      | outOfMemory region => exact ⟨rfl, h'.code, h'.names, h'.arena, h.escapes, h'.events⟩
      | needsWalker =>
        apply matching_escape equal
        have back := h'.code.rewind h.code.least
        refine ⟨?_, h'.names, h'.arena, h.escapes, ?_⟩
        · dsimp only
          rw [← h.code.length]
          exact back
        · dsimp only
          rw [kind, h'.events, h.code.length, h'.code.length]

end Matching

end Compile

end StackScript
