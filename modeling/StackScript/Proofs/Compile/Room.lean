import StackScript.Proofs.Compile.Growth

/-!
# More room

One draft can have more room than another of the same length: a higher limit, fewer names, buffers
that were doubled less often, an arena without a limit. Then whatever can be compiled into the one
can be compiled into the other. Which instructions and names are added does not matter for this,
only how many.
-/

namespace StackScript

/-! ## Buffers -/

/-- A buffer holds no more than another, and was doubled no more often. -/
structure Behind (length capacity length' capacity' : Nat) : Prop where
  le : length ≤ length'
  holds : Holds length capacity
  holds' : Holds length' capacity'
  doubled : Doubled capacity capacity'

namespace Behind

variable {length capacity length' capacity' length'' capacity'' : Nat}

/-- If the first buffer is full, both are, or the second was doubled since. -/
theorem full_or (h : Behind length capacity length' capacity') (full : length = capacity) :
    length' = capacity' ∧ capacity = capacity' ∨ Doubled (2 * capacity) capacity' := by
  rcases h.doubled.eq_or with same | more
  · have le := h.le
    have le' := h.holds'.le
    exact .inl ⟨by omega, same⟩
  · exact .inr more

/-- A buffer that is behind another can grow if the other can. -/
theorem canGrow (h : Behind length capacity length' capacity') (room : CanGrow length' capacity') :
    CanGrow length capacity := by
  intro full
  rcases h.full_or full with ⟨full', same⟩ | more
  · rw [same]
    exact room full'
  · exact Nat.lt_of_le_of_lt more.le h.holds'.bounded

/-- One more entry in each. -/
theorem push (h : Behind length capacity length' capacity') (room : CanGrow length' capacity') :
    Behind (length + 1) (capacityAfter length capacity) (length' + 1)
      (capacityAfter length' capacity') where
  le := Nat.succ_le_succ h.le
  holds := h.holds.push (h.canGrow room)
  holds' := h.holds'.push room
  doubled := by
    by_cases full : length = capacity
    · rw [capacityAfter_of_eq full]
      rcases h.full_or full with ⟨full', same⟩ | more
      · rw [capacityAfter_of_eq full', same]
        exact .refl
      · exact more.trans (doubled_capacityAfter _ _)
    · rw [capacityAfter_of_ne full]
      exact h.doubled.trans (doubled_capacityAfter _ _)

/-- Entries are taken back from both. -/
theorem shrink (h : Behind length capacity length' capacity') {n n' : Nat} (le : n ≤ n')
    (below : n ≤ length) (below' : n' ≤ length') : Behind n capacity n' capacity' where
  le := le
  holds := h.holds.shrink below
  holds' := h.holds'.shrink below'
  doubled := h.doubled

/-- Only the other buffer is added to. -/
theorem ahead (h : Behind length capacity length' capacity') (longer : length' ≤ length'')
    (holds : Holds length'' capacity'') (doubled : Doubled capacity' capacity'') :
    Behind length capacity length'' capacity'' where
  le := Nat.le_trans h.le longer
  holds := h.holds
  holds' := holds
  doubled := h.doubled.trans doubled

end Behind

/-! ## Code, names and arena -/

/-- Code of the same length, for which there is room when there is for the other. -/
structure Code.Outlasts (c c' : Code) : Prop where
  length : c.length = c'.length
  limit : ∀ most, c.limit = some most → ∃ least, c'.limit = some least ∧ least ≤ most
  buffer : Behind c.length c.capacity c'.length c'.capacity

/-- Fewer names, for which there is room when there is for the others. -/
def NamePool.Outlasts (p p' : NamePool) : Prop :=
  Behind p.length p.capacity p'.length p'.capacity

/-- An arena that has room for a text when the other has. -/
def Arena.Outlasts (a a' : Arena) : Prop :=
  a = a' ∨ a.limit = none

namespace Code

variable {c c' : Code}

theorem Outlasts.isAtLimit (h : c.Outlasts c') (free : c'.isAtLimit = false) :
    c.isAtLimit = false := by
  rw [isAtLimit_eq_false] at free ⊢
  intro most limit
  obtain ⟨least, limit', le⟩ := h.limit most limit
  rw [h.length]
  exact Nat.lt_of_lt_of_le (free least limit') le

/-- There is room where there is room in less. -/
theorem Outlasts.hasRoom (h : c.Outlasts c') (room : c'.hasRoom = true) : c.hasRoom = true := by
  obtain ⟨free, grow⟩ := c'.hasRoom_iff.mp room
  exact c.hasRoom_iff.mpr ⟨h.isAtLimit free, h.buffer.canGrow grow⟩

theorem Outlasts.push (h : c.Outlasts c') (room : c'.hasRoom = true) (i i' : Instruction) :
    (c.push i).Outlasts (c'.push i') where
  length := by rw [length_push, length_push, h.length]
  limit := h.limit
  buffer := by
    rw [length_push, length_push]
    exact h.buffer.push (c'.hasRoom_iff.mp room).2

theorem Outlasts.rewind (h : c.Outlasts c') (n : Nat) : (c.rewind n).Outlasts (c'.rewind n) where
  length := by rw [length_rewind, length_rewind, h.length]
  limit := h.limit
  buffer := by
    have same := h.length
    rw [length_rewind, length_rewind]
    exact h.buffer.shrink (by omega) (by omega) (by omega)

theorem Outlasts.setOperand (h : c.Outlasts c') (offset offset' : Nat)
    (operand operand' : Option Operand) :
    (c.setOperand offset operand).Outlasts (c'.setOperand offset' operand') where
  length := by rw [length_setOperand, length_setOperand, h.length]
  limit := h.limit
  buffer := by
    rw [length_setOperand, length_setOperand]
    exact h.buffer

end Code

namespace NamePool

variable {p p' : NamePool}

theorem Outlasts.hasRoom (h : p.Outlasts p') (room : p'.hasRoom = true) : p.hasRoom = true := by
  obtain ⟨grow, word⟩ := p'.hasRoom_iff.mp room
  exact p.hasRoom_iff.mpr ⟨h.canGrow grow, Nat.lt_of_le_of_lt h.le word⟩

theorem Outlasts.push (h : p.Outlasts p') (room : p'.hasRoom = true) (text text' : String) :
    (p.push text).Outlasts (p'.push text') := by
  rw [Outlasts, length_push, length_push]
  exact Behind.push h (p'.hasRoom_iff.mp room).1

end NamePool

namespace Arena

/-- An arena without a limit has room for every text, whatever its policy. -/
theorem exists_reserve {a : Arena} (unlimited : a.limit = none) (size : Nat) :
    ∃ b, a.reserve size = .ok b := by
  unfold reserve
  by_cases empty : size = 0
  · rw [if_pos empty]
    exact ⟨_, rfl⟩
  rw [if_neg empty]
  by_cases enough : size ≤ a.free
  · rw [if_pos enough]
    exact ⟨_, rfl⟩
  rw [if_neg enough]
  obtain ⟨chunk, found⟩ :=
    Option.isSome_iff_exists.mp (a.policy.isSome_next? a.allocated a.chunk size)
  rw [unlimited, found]
  exact ⟨_, rfl⟩

/-- An arena that outlasts another has the bytes that the other has. -/
theorem Outlasts.reserve {a a' b' : Arena} (h : a.Outlasts a') {size : Nat}
    (reserved : a'.reserve size = .ok b') : ∃ b, a.reserve size = .ok b ∧ b.Outlasts b' := by
  rcases h with rfl | unlimited
  · exact ⟨b', reserved, .inl rfl⟩
  · obtain ⟨b, reserved'⟩ := exists_reserve unlimited size
    exact ⟨b, reserved', .inr ((limit_of_reserve reserved').trans unlimited)⟩

end Arena

/-! ## Drafts -/

/-- There is room in the first draft whenever there is in the second. -/
structure Draft.Outlasts (d d' : Draft) : Prop where
  code : d.code.Outlasts d'.code
  names : d.names.Outlasts d'.names
  arena : d.arena.Outlasts d'.arena
  escapes : d.escapes = d'.escapes

/-- The draft of the other code was extended, but no code was added to it. -/
theorem Code.Outlasts.extended {c : Code} {d e : Draft} (h : c.Outlasts d.code)
    (grown : d.Extends e)
    (length : e.code.length = d.code.length) : c.Outlasts e.code := by
  obtain ⟨holds, doubled⟩ := grown.code h.buffer.holds'
  refine ⟨h.length.trans length.symm, ?_, h.buffer.ahead (Nat.le_of_eq length.symm) holds doubled⟩
  intro most limit
  obtain ⟨least, limit', le⟩ := h.limit most limit
  exact ⟨least, grown.limit.trans limit', le⟩

/-- Names were added to those of a draft. -/
theorem NamePool.Outlasts.extended {p : NamePool} {d e : Draft} (h : p.Outlasts d.names)
    (grown : d.Extends e) : p.Outlasts e.names := by
  have longer : d.names.length ≤ e.names.length := by
    rw [Draft.length_names, Draft.length_names]
    exact grown.added.length_le
  obtain ⟨holds, doubled⟩ := grown.names h.holds'
  exact h.ahead longer holds doubled

theorem Draft.Outlasts.reportGrowth {d d' : Draft} (h : d.Outlasts d')
    (event event' : Option Event) :
    (Compile.reportGrowth d event).Outlasts (Compile.reportGrowth d' event') := by
  cases event <;> cases event' <;> exact ⟨h.code, h.names, h.arena, h.escapes⟩

namespace Compile

/-- Unless memory runs out in the second step, the first ends in the same way where there is more
    room, and there is more room afterwards. -/
def Lasting {α β : Type} (step : Compile α) (step' : Compile β) : Prop :=
  ∀ d d' : Draft, d.Outlasts d' →
    match step' d' with
    | .ok _ e' => ∃ a e, step d = .ok a e ∧ e.Outlasts e'
    | .error .needsWalker e' => ∃ e, step d = .error .needsWalker e ∧ e.Outlasts e'
    | .error (.outOfMemory _) _ => True

section Lasting

variable {α β γ δ : Type}

/-- One step after another. -/
theorem Lasting.bind {step : Compile α} {rest : α → Compile γ} {step' : Compile β}
    {rest' : β → Compile δ} (first : Lasting step step')
    (second : ∀ a b, Lasting (rest a) (rest' b)) : Lasting (step >>= rest) (step' >>= rest') := by
  intro d d' more
  have after := first d d' more
  simp only [Bind.bind, EStateM.bind]
  cases h : step' d' with
  | ok b e' =>
    rw [h] at after
    obtain ⟨a, e, same, more'⟩ := after
    rw [same]
    exact second a b e e' more'
  | error halt e' =>
    rw [h] at after
    cases halt with
    | needsWalker =>
      obtain ⟨e, same, more'⟩ := after
      rw [same]
      exact ⟨e, rfl, more'⟩
    | outOfMemory region => trivial

theorem lasting_pure (a : α) (b : β) : Lasting (pure a) (pure b) :=
  fun d _ more => ⟨a, d, rfl, more⟩

theorem lasting_position : Lasting position position :=
  fun d _ more => ⟨d.code.length, d, rfl, more⟩

/-- There is room for an instruction where there is room for another in less. -/
theorem lasting_emit (i j : Instruction) : Lasting (emit i) (emit j) := by
  intro d d' more
  simp only [emit]
  by_cases room : d'.code.hasRoom = true
  · rw [if_pos room, if_pos (more.code.hasRoom room)]
    have pushed :
        Draft.Outlasts { d with code := d.code.push i } { d' with code := d'.code.push j } :=
      ⟨more.code.push room i j, more.names, more.arena, more.escapes⟩
    exact ⟨_, _, rfl, pushed.reportGrowth _ _⟩
  · rw [if_neg room]
    trivial

/-- The same of a name. A pool that is refused may have grown. -/
theorem lasting_intern (text : String) : Lasting (intern text) (intern text) := by
  intro d d' more
  simp only [intern]
  by_cases room : d'.names.hasRoom = true
  · rw [if_pos room, if_pos (more.names.hasRoom room)]
    have pushed : Draft.Outlasts { d with names := d.names.push text }
        { d' with names := d'.names.push text } :=
      ⟨more.code, more.names.push room text text, more.arena, more.escapes⟩
    exact ⟨_, _, rfl, pushed.reportGrowth _ _⟩
  · rw [if_neg room]
    trivial

/-- The text that goes on is the same in both. -/
theorem lasting_copied (text : String) {rest : String → Compile Unit}
    (h : ∀ copied, Lasting (rest copied) (rest copied)) :
    Lasting (copy text >>= rest) (copy text >>= rest) := by
  intro d d' more
  simp only [copy, Arena.copy, Bind.bind, EStateM.bind]
  cases reserved : d'.arena.reserve text.utf8ByteSize with
  | ok arena' =>
    obtain ⟨arena, reserved', more'⟩ := more.arena.reserve reserved
    rw [reserved']
    exact h text _ _ ⟨more.code, more.names, more', more.escapes⟩
  | error region => trivial

theorem lasting_patchJump (offset offset' : Nat) : Lasting (patchJump offset) (patchJump offset') :=
  fun _ _ more => ⟨_, _, rfl, more.code.setOperand .., more.names, more.arena, more.escapes⟩

theorem lasting_reserveJump (op : Op) : Lasting (reserveJump op) (reserveJump op) :=
  lasting_position.bind fun offset offset' =>
    (lasting_emit _ _).bind fun _ _ => lasting_pure offset offset'

/-- A statement that is handed over. -/
theorem lasting_escape (tree : Statement) : Lasting (escape tree) (escape tree) := by
  intro d d' more
  simp only [escape]
  by_cases escapes : d'.escapes = true
  · rw [if_pos escapes, if_pos (more.escapes.trans escapes)]
    exact lasting_emit _ _ d d' more
  · rw [if_neg escapes, if_neg (more.escapes ▸ escapes)]
    exact ⟨d, rfl, more⟩

/-- A loop that is taken back is taken back to the same length in both. -/
theorem lasting_loop (tree : Statement) {body : Compile Unit} (h : Lasting body body) :
    Lasting (loop tree body) (loop tree body) := by
  intro d d' more
  have inside : Draft.Outlasts { d with escapes := false } { d' with escapes := false } :=
    ⟨more.code, more.names, more.arena, rfl⟩
  have inner := h _ _ inside
  simp only [loop]
  cases hbody : body { d' with escapes := false } with
  | ok _ e' =>
    rw [hbody] at inner
    obtain ⟨a, e, same, more'⟩ := inner
    rw [same]
    exact ⟨(), _, rfl, more'.code, more'.names, more'.arena, more.escapes⟩
  | error halt e' =>
    rw [hbody] at inner
    cases halt with
    | outOfMemory region => trivial
    | needsWalker =>
      obtain ⟨e, same, more'⟩ := inner
      rw [same]
      apply lasting_escape tree
      refine ⟨?_, more'.names, more'.arena, more.escapes⟩
      dsimp only
      rw [more.code.length]
      exact more'.code.rewind _

/-- What can be compiled into a draft can be compiled into one with more room. -/
theorem lasting : Structured fun step => Lasting step step where
  nothing := lasting_pure () ()
  seq first second := first.bind fun _ _ => second
  emit i := lasting_emit i i
  named _ text _ := (lasting_intern text).bind fun _ _ => lasting_emit _ _
  copied text _ rest := lasting_copied text rest
  overflow _ _ _ := trivial
  skip op _ body :=
    (lasting_reserveJump op).bind fun toEnd toEnd' =>
      body.bind fun _ _ => lasting_patchJump toEnd toEnd'
  branch op _ _ consequent alternate := by
    refine (lasting_reserveJump op).bind fun toAlternate toAlternate' => ?_
    refine consequent.bind fun _ _ => (lasting_reserveJump .jump).bind fun toEnd toEnd' => ?_
    refine (lasting_patchJump toAlternate toAlternate').bind fun _ _ => ?_
    exact alternate.bind fun _ _ => lasting_patchJump toEnd toEnd'
  cycle test body := by
    refine lasting_position.bind fun start start' => test.bind fun _ _ => ?_
    refine (lasting_reserveJump .jumpIfFalse).bind fun toEnd toEnd' => body.bind fun _ _ => ?_
    exact (lasting_emit _ _).bind fun _ _ => lasting_patchJump toEnd toEnd'
  forever body :=
    lasting_position.bind fun _ _ => body.bind fun _ _ => lasting_emit _ _
  report event _ _ more := ⟨(), _, rfl, more.reportGrowth (some event) (some event)⟩
  escape := lasting_escape
  loop tree _ body := lasting_loop tree body

end Lasting

end Compile

end StackScript
