import StackScript.Proofs.Segment.Tree

/-!
# Compiling emits segments

A small logic for the steps of compiling. It says what a step does when memory lasts: how the draft
has grown when the step is done, and how it has grown when a statement was met that needs the tree
walker. With it, compiling a tree is shown to add exactly the segment of the tree.
-/

namespace StackScript

/-- The instructions written so far. -/
def Draft.written (d : Draft) : List Instruction :=
  d.code.instructions.toList

/-- The names added so far. -/
def Draft.added (d : Draft) : List String :=
  d.names.entries.toList

@[simp] theorem Draft.length_code (d : Draft) : d.code.length = d.written.length := by
  simp [Draft.written, Code.length]

@[simp] theorem Draft.length_names (d : Draft) : d.names.length = d.added.length := by
  simp [Draft.added, NamePool.length]

/-- Code and names were added to a draft, and nothing else that matters. -/
structure Draft.Grows (d : Draft) (code : List Instruction) (texts : List String) (e : Draft) :
    Prop where
  written : e.written = d.written ++ code
  added : e.added = d.added ++ texts
  escapes : e.escapes = d.escapes

/-- What two steps write, one after the other. -/
theorem Draft.Grows.trans {d e f : Draft} {code code' : List Instruction}
    {texts texts' : List String} (first : d.Grows code texts e) (second : e.Grows code' texts' f) :
    d.Grows (code ++ code') (texts ++ texts') f where
  written := by rw [second.written, first.written, List.append_assoc]
  added := by rw [second.added, first.added, List.append_assoc]
  escapes := second.escapes.trans first.escapes

/-- The next offset after the step. -/
theorem Draft.Grows.length_written {d e : Draft} {code : List Instruction} {texts : List String}
    (h : d.Grows code texts e) : e.written.length = d.written.length + code.length := by
  rw [h.written, List.length_append]

/-- The next place for a name after the step. -/
theorem Draft.Grows.length_added {d e : Draft} {code : List Instruction} {texts : List String}
    (h : d.Grows code texts e) : e.added.length = d.added.length + texts.length := by
  rw [h.added, List.length_append]

/-- The element behind the first list is changed. -/
theorem modify_append_cons {α : Type} (before after : List α) (x : α) (f : α → α) :
    (before ++ x :: after).modify before.length f = before ++ f x :: after := by
  induction before with
  | nil => rfl
  | cons y before ih => simp [ih]

/-- Code that is taken back is cut off. -/
theorem toList_rewind (c : Code) (n : Nat) :
    (c.rewind n).instructions.toList = c.instructions.toList.take n := by
  simp [Code.rewind]

theorem Draft.written_setOperand (d : Draft) (j : Nat) (operand : Option Operand) :
    Draft.written { d with code := d.code.setOperand j operand } =
      d.written.modify j fun i => { i with operand := operand } :=
  Array.toList_modify

namespace Compile

/-- Unless memory runs out, the step ends with the first condition, or stops for the tree walker
    with the second. -/
def Meets {α : Type} (step : Compile α) (d : Draft) (post : α → Draft → Prop)
    (bail : Draft → Prop) : Prop :=
  match step d with
  | .ok a e => post a e
  | .error .needsWalker e => bail e
  | .error (.outOfMemory _) _ => True

section Meets

variable {α β : Type} {d : Draft} {bail : Draft → Prop}

/-- One step after another. Running out of memory is always allowed. -/
theorem Meets.bind {step : Compile α} {rest : α → Compile β} {mid : α → Draft → Prop}
    {post : β → Draft → Prop} (first : Meets step d mid bail)
    (second : ∀ a e, mid a e → Meets (rest a) e post bail) :
    Meets (step >>= rest) d post bail := by
  unfold Meets at first
  simp only [Meets, Bind.bind, EStateM.bind]
  cases h : step d with
  | ok a e =>
    rw [h] at first
    exact second a e first
  | error halt e =>
    rw [h] at first
    cases halt <;> exact first

/-- A weaker condition. -/
theorem Meets.mono {step : Compile α} {post post' : α → Draft → Prop} {bail' : Draft → Prop}
    (h : Meets step d post bail) (ok : ∀ a e, post a e → post' a e)
    (stopped : ∀ e, bail e → bail' e) : Meets step d post' bail' := by
  unfold Meets at h ⊢
  split at h
  · exact ok _ _ h
  · exact stopped _ h
  · trivial

theorem meets_pure {post : α → Draft → Prop} {a : α} (h : post a d) :
    Meets (pure a) d post bail :=
  h

/-- The growth of a buffer only shows in the reports. -/
@[simp] theorem code_reportGrowth (d : Draft) (event : Option Event) :
    (reportGrowth d event).code = d.code := by
  cases event <;> rfl

@[simp] theorem names_reportGrowth (d : Draft) (event : Option Event) :
    (reportGrowth d event).names = d.names := by
  cases event <;> rfl

@[simp] theorem arena_reportGrowth (d : Draft) (event : Option Event) :
    (reportGrowth d event).arena = d.arena := by
  cases event <;> rfl

@[simp] theorem escapes_reportGrowth (d : Draft) (event : Option Event) :
    (reportGrowth d event).escapes = d.escapes := by
  cases event <;> rfl

theorem meets_position :
    Meets position d (fun offset e => offset = d.written.length ∧ e = d) bail := by
  simp [Meets, position]

/-- An instruction is written at the end. -/
theorem meets_emit (i : Instruction) :
    Meets (emit i) d (fun _ e => d.Grows [i] [] e) bail := by
  simp only [Meets, emit]
  split
  · rename_i h
    split at h
    · cases h
      refine ⟨?_, ?_, ?_⟩
      · simp [Draft.written, Code.push]
      · simp [Draft.added]
      · simp
    · cases h
  · rename_i h
    split at h <;> cases h
  · trivial

/-- A name gets the next place. -/
theorem meets_intern (text : String) :
    Meets (intern text) d (fun n e => n = d.added.length ∧ d.Grows [] [text] e) bail := by
  simp only [Meets, intern]
  split
  · rename_i h
    split at h
    · cases h
      refine ⟨by simp, ?_, ?_, ?_⟩
      · simp [Draft.written]
      · simp [Draft.added, NamePool.push]
      · simp
    · cases h
  · rename_i h
    split at h <;> cases h
  · trivial

/-- The copy of a text is the text. -/
theorem meets_copy (text : String) :
    Meets (copy text) d (fun copied e => copied = text ∧ d.Grows [] [] e) bail := by
  simp only [Meets, copy, Arena.copy]
  cases d.arena.reserve text.utf8ByteSize with
  | ok arena => exact ⟨rfl, by simp [Draft.written], by simp [Draft.added], rfl⟩
  | error region => trivial

/-- A reserved jump is known by its offset, and has no target. -/
theorem meets_reserveJump (op : Op) :
    Meets (reserveJump op) d
      (fun j e => j = d.written.length ∧ d.Grows [{ op := op, operand := some .pending }] [] e)
      bail := by
  apply Meets.bind meets_position
  rintro j e ⟨rfl, rfl⟩
  apply Meets.bind (meets_emit _)
  intro _ f grown
  exact meets_pure ⟨rfl, grown⟩

theorem grows_position (bail : Draft → Prop) :
    Meets position d (fun _ e => d.Grows [] [] e) bail := by
  apply meets_position.mono
  · rintro _ e ⟨-, rfl⟩
    exact ⟨by simp, by simp, rfl⟩
  · exact fun _ h => h

theorem grows_reserveJump (op : Op) (bail : Draft → Prop) :
    Meets (reserveJump op) d
      (fun _ e => d.Grows [{ op := op, operand := some .pending }] [] e) bail :=
  (meets_reserveJump op).mono (fun _ _ h => h.2) fun _ h => h

/-- Setting the target of a jump that was reserved since the draft was `d`. -/
theorem meets_patchJump {e : Draft} {op : Op} (before : List Instruction)
    {after : List Instruction} {texts : List String}
    (grown : d.Grows (before ++ { op := op, operand := some .pending } :: after) texts e) :
    Meets (patchJump (d.written.length + before.length)) e
      (fun _ f => d.Grows (before ++ .jumpTo op e.written.length :: after) texts f) bail := by
  refine ⟨?_, grown.added, grown.escapes⟩
  rw [Draft.written_setOperand, Draft.length_code, ← List.length_append]
  nth_rewrite 1 [grown.written]
  rw [← List.append_assoc, modify_append_cons, List.append_assoc]
  rfl

end Meets

/-- If memory lasts, the step adds the segment and nothing else, and does not stop for the tree
    walker. -/
def Emits (step : Compile Unit) (s : Segment) (d : Draft) : Prop :=
  ∀ bail, Meets step d
    (fun _ e => d.Grows (s.place d.written.length d.added.length) s.names e) bail

/-- Where this is the next offset and the next place for a name, the step writes this code, unless
    it fails. -/
def Writes (step : Compile Unit) (o n : Nat) (code : List Instruction) : Prop :=
  ∀ d e : Draft, d.written.length = o → d.added.length = n → step d = .ok () e →
    e.written = d.written ++ code

section Emits

variable {d : Draft} {a b : Segment}

/-- The code that a step has written when it is done. -/
theorem Emits.written {step : Compile Unit} {e : Draft} (h : Emits step a d)
    (done : step d = .ok () e) :
    e.written = d.written ++ a.place d.written.length d.added.length := by
  have grown := h fun _ => True
  rw [Meets, done] at grown
  exact grown.written

/-- Two segments, of which the second begins where the first ends. -/
theorem Emits.seq {first second : Compile Unit} (h₁ : Emits first a d)
    (h₂ : ∀ e : Draft, e.escapes = d.escapes → Emits second b e) :
    Emits (do first; second) (a.seq b) d := by
  intro bail
  apply (h₁ bail).bind
  intro _ e grown
  apply (h₂ e grown.escapes bail).mono
  · intro _ f grown'
    rw [grown.length_written, grown.length_added, Segment.length_place] at grown'
    exact grown.trans grown'
  · exact fun _ h => h

/-- An instruction that is the same wherever it is placed. -/
theorem emits_emit {i : Instruction} (fixed : i.isFixed = true) :
    Emits (emit i) (.plain i fixed) d :=
  fun _ => meets_emit i

theorem emits_emitOp {o : Op} (h : o.goesOn = true) : Emits (emitOp o) (.op o h) d :=
  emits_emit _

/-- An instruction on a name, which gets the next place. -/
theorem emits_named {o : Op} {text : String} {extra : Option Operand} (h : o.goesOn = true) :
    Emits (do let n ← intern text; emit { op := o, operand := some (.name n), extra := extra })
      (.named o text extra h) d := by
  intro bail
  apply (meets_intern text).bind
  rintro n e ⟨rfl, grown⟩
  apply (meets_emit _).mono
  · intro _ f grown'
    exact grown.trans grown'
  · exact fun _ h => h

/-- An instruction with a count, if the count fits into a word. -/
theorem emits_emitCount {o : Op} {n : Nat} (h : o.goesOn = true) :
    Emits (emitCount o n) (.counted o n h) d := by
  unfold emitCount Assembler.emitCount
  split
  · exact emits_emit _
  · exact fun _ => trivial

/-- To do nothing. -/
theorem emits_nothing : Emits (pure ()) .nothing d := by
  intro bail
  refine ⟨?_, ?_, rfl⟩
  · simp [Segment.nothing, Segment.place]
  · simp [Segment.nothing, Segment.names]

/-- A body that is skipped by a jump to its end. The target is set when the end is known. -/
theorem emits_skip {operator : LogicalOperator} {body : Compile Unit}
    (h : ∀ e : Draft, e.escapes = d.escapes → Emits body a e) :
    Emits (do let j ← reserveJump operator.op; body; patchJump j) (.skip operator a) d := by
  intro bail
  apply (meets_reserveJump _).bind
  rintro j e ⟨rfl, reserved⟩
  have here : e.written.length = d.written.length + 1 := reserved.length_written
  have free : e.added.length = d.added.length := reserved.length_added
  apply (h e reserved.escapes bail).bind
  intro _ f grown
  rw [here, free] at grown
  have stop : f.written.length = d.written.length + 1 + a.size := by
    rw [(reserved.trans grown).length_written, List.length_append, Segment.length_place]
    exact (Nat.add_assoc ..).symm
  apply (meets_patchJump [] (reserved.trans grown)).mono
  · intro _ g patched
    rw [stop] at patched
    exact patched
  · exact fun _ h => h

/-- The first part of a choice, up to the alternate. It gives the jump that is still open. -/
def consequent (keeps : Bool) (step : Compile Unit) : Compile Nat := do
  let toAlternate ← reserveJump (Segment.branchOp keeps)
  step
  let toEnd ← reserveJump .jump
  patchJump toAlternate
  return toEnd

/-- The steps of a choice, with those up to the alternate together. -/
theorem choice_eq (keeps : Bool) (step alternate : Compile Unit) :
    (do
      let toAlternate ← reserveJump (Segment.branchOp keeps)
      step
      let toEnd ← reserveJump .jump
      patchJump toAlternate
      alternate
      patchJump toEnd) =
    (do
      let toEnd ← consequent keeps step
      alternate
      patchJump toEnd) := by
  simp only [consequent, bind_assoc, pure_bind]

/-- The jump to the alternate has its target when the consequent ends with a jump that has none. -/
theorem meets_consequent (keeps : Bool) {step : Compile Unit} {bail : Draft → Prop}
    (h : ∀ e : Draft, e.escapes = d.escapes → Emits step a e) :
    Meets (consequent keeps step) d
      (fun toEnd e => toEnd = d.written.length + 1 + a.size ∧
        d.Grows
          (.jumpTo (Segment.branchOp keeps) (d.written.length + 1 + a.size + 1) ::
            a.place (d.written.length + 1) d.added.length ++
              [{ op := .jump, operand := some .pending }]) a.names e) bail := by
  apply (meets_reserveJump _).bind
  rintro j e₁ ⟨rfl, reserved₁⟩
  have here₁ : e₁.written.length = d.written.length + 1 := reserved₁.length_written
  have free₁ : e₁.added.length = d.added.length := reserved₁.length_added
  apply (h e₁ reserved₁.escapes bail).bind
  intro _ e₂ grown
  rw [here₁, free₁] at grown
  have upTo₂ := reserved₁.trans grown
  have here₂ : e₂.written.length = d.written.length + 1 + a.size := by
    rw [upTo₂.length_written]
    simp
    omega
  apply (meets_reserveJump _).bind
  rintro j e₃ ⟨rfl, reserved₂⟩
  have upTo₃ : d.Grows ([] ++ { op := Segment.branchOp keeps, operand := some .pending } ::
      (a.place (d.written.length + 1) d.added.length ++
        [{ op := .jump, operand := some .pending }])) a.names e₃ := by
    simpa using upTo₂.trans reserved₂
  have middle : e₃.written.length = d.written.length + 1 + a.size + 1 := by
    rw [reserved₂.length_written, here₂]
    rfl
  apply (meets_patchJump [] upTo₃).bind
  intro _ e₄ patched
  rw [middle] at patched
  exact meets_pure ⟨here₂, patched⟩

/-- A choice, with both jumps set. -/
theorem emits_branch (keeps : Bool) {step alternate : Compile Unit}
    (h₁ : ∀ e : Draft, e.escapes = d.escapes → Emits step a e)
    (h₂ : ∀ e : Draft, e.escapes = d.escapes → Emits alternate b e) :
    Emits (do
      let toAlternate ← reserveJump (Segment.branchOp keeps)
      step
      let toEnd ← reserveJump .jump
      patchJump toAlternate
      alternate
      patchJump toEnd) (.branch keeps a b) d := by
  rw [choice_eq]
  intro bail
  apply (meets_consequent keeps h₁).bind
  rintro toEnd e ⟨rfl, grown₁⟩
  have here : e.written.length = d.written.length + 1 + a.size + 1 := by
    rw [grown₁.length_written]
    simp
    omega
  apply (h₂ e grown₁.escapes bail).bind
  intro _ f grown₂
  rw [here, grown₁.length_added] at grown₂
  have total : d.Grows
      ((.jumpTo (Segment.branchOp keeps) (d.written.length + 1 + a.size + 1) ::
          a.place (d.written.length + 1) d.added.length) ++
        { op := .jump, operand := some .pending } ::
          b.place (d.written.length + 1 + a.size + 1) (d.added.length + a.names.length))
      (a.names ++ b.names) f := by
    simpa using grown₁.trans grown₂
  have stop : f.written.length = d.written.length + 1 + a.size + 1 + b.size := by
    rw [total.length_written]
    simp
    omega
  have open₂ : d.written.length + 1 + a.size = d.written.length +
      (Instruction.jumpTo (Segment.branchOp keeps) (d.written.length + 1 + a.size + 1) ::
        a.place (d.written.length + 1) d.added.length).length := by
    simp
    omega
  rw [open₂]
  apply (meets_patchJump _ total).mono
  · intro _ g patched
    rw [stop] at patched
    exact patched
  · exact fun _ h => h

/-- The jump out of a loop is open while its body is added; the jump back is known. -/
theorem emits_cycle {test body : Compile Unit}
    (h₁ : ∀ e : Draft, e.escapes = d.escapes → Emits test a e)
    (h₂ : ∀ e : Draft, e.escapes = d.escapes → Emits body b e) :
    Emits (do
      let start ← position
      test
      let toEnd ← reserveJump .jumpIfFalse
      body
      emitWith .jump (.jump start)
      patchJump toEnd) (.cycle a b) d := by
  intro bail
  apply meets_position.bind
  rintro start e ⟨rfl, rfl⟩
  apply (h₁ e rfl bail).bind
  intro _ e₁ grown₁
  apply (meets_reserveJump _).bind
  rintro j e₂ ⟨rfl, reserved⟩
  have upTo₂ := grown₁.trans reserved
  have here₂ : e₂.written.length = e.written.length + a.size + 1 := by
    rw [upTo₂.length_written]
    simp
    omega
  have free₂ : e₂.added.length = e.added.length + a.names.length := by
    rw [upTo₂.length_added]
    simp
  apply (h₂ e₂ upTo₂.escapes bail).bind
  intro _ e₃ grown₂
  rw [here₂, free₂] at grown₂
  apply (meets_emit _).bind
  intro _ e₄ back
  have upTo₄ : e.Grows
      (a.place e.written.length e.added.length ++
        { op := .jumpIfFalse, operand := some .pending } ::
          (b.place (e.written.length + a.size + 1) (e.added.length + a.names.length) ++
            [.jumpTo .jump e.written.length]))
      (a.names ++ b.names) e₄ := by
    simpa [Instruction.jumpTo] using upTo₂.trans (grown₂.trans back)
  have here₁ : e₁.written.length =
      e.written.length + (a.place e.written.length e.added.length).length :=
    grown₁.length_written
  have stop : e₄.written.length = e.written.length + a.size + 1 + b.size + 1 := by
    rw [upTo₄.length_written]
    simp
    omega
  rw [here₁]
  apply (meets_patchJump _ upTo₄).mono
  · intro _ g patched
    rw [stop] at patched
    simpa [Segment.place, Segment.names] using patched
  · exact fun _ h => h

/-- A loop without a test, with the jump back at its end. -/
theorem emits_forever {body : Compile Unit}
    (h : ∀ e : Draft, e.escapes = d.escapes → Emits body a e) :
    Emits (do
      let start ← position
      body
      emitWith .jump (.jump start)) (.forever a) d := by
  intro bail
  apply meets_position.bind
  rintro start e ⟨rfl, rfl⟩
  apply (h e rfl bail).bind
  intro _ e₁ grown
  apply (meets_emit _).mono
  · intro _ e₂ back
    simpa [Segment.place, Segment.names, Instruction.jumpTo] using grown.trans back
  · exact fun _ h => h

end Emits

/-- If memory lasts, the step stops for the tree walker. It has added the given names by then, and
    code behind the code that was there. -/
def Stops {α : Type} (step : Compile α) (texts : List String) (d : Draft) : Prop :=
  Meets step d (fun _ _ => False)
    fun e => d.written <+: e.written ∧ e.added = d.added ++ texts ∧ e.escapes = d.escapes

section Stops

variable {α β : Type} {d : Draft} {a : Segment} {texts texts' : List String}

/-- A step that stops is not followed by anything. -/
theorem Stops.first {step : Compile α} {rest : α → Compile β} (h : Stops step texts d) :
    Stops (step >>= rest) texts d :=
  h.bind fun _ _ => False.elim

/-- What was added before counts as well. -/
theorem Stops.after {step : Compile α} {rest : α → Compile β} {code : List Instruction}
    (grows : ∀ bail, Meets step d (fun _ e => d.Grows code texts e) bail)
    (h : ∀ (a : α) (e : Draft), e.escapes = d.escapes → Stops (rest a) texts' e) :
    Stops (step >>= rest) (texts ++ texts') d := by
  apply (grows _).bind
  intro a e grown
  apply (h a e grown.escapes).mono
  · exact fun _ _ => id
  · rintro f ⟨longer, added, escapes⟩
    refine ⟨?_, ?_, escapes.trans grown.escapes⟩
    · exact (grown.written ▸ List.prefix_append _ _).trans longer
    · rw [added, grown.added, List.append_assoc]

/-- A choice with an alternate that stops keeps the names of its consequent. -/
theorem stops_branch (keeps : Bool) {step alternate : Compile Unit}
    (h₁ : ∀ e : Draft, e.escapes = d.escapes → Emits step a e)
    (h₂ : ∀ e : Draft, e.escapes = d.escapes → Stops alternate texts e) :
    Stops (do
      let toAlternate ← reserveJump (Segment.branchOp keeps)
      step
      let toEnd ← reserveJump .jump
      patchJump toAlternate
      alternate
      patchJump toEnd) (a.names ++ texts) d := by
  rw [choice_eq]
  apply Stops.after fun bail => (meets_consequent keeps h₁).mono (fun _ _ h => h.2) fun _ h => h
  intro toEnd e same
  exact (h₂ e same).first

/-- A statement without code of its own stops the compiler inside of a loop. -/
theorem stops_escape {s : Statement} (h : d.escapes = false) : Stops (escape s) [] d := by
  simp only [Stops, Meets, escape, h, Bool.false_eq_true, if_false]
  exact ⟨List.prefix_rfl, by simp, trivial⟩

/-- Outside of a loop it is handed over. -/
theorem emits_escape {s : Statement} (h : d.escapes = true) : Emits (escape s) (.escape s) d := by
  intro bail
  have : escape s d = emitWith .escape (.statement s) d := by simp [escape, h]
  rw [Meets, this]
  exact meets_emit _

/-- A loop that is code throughout. -/
theorem emits_loop {s : Statement} {body : Compile Unit}
    (h : Emits body a { d with escapes := false }) : Emits (loop s body) a d := by
  intro bail
  have inner := h fun _ => False
  simp only [Meets, loop] at inner ⊢
  cases hbody : body { d with escapes := false } with
  | ok u e =>
    rw [hbody] at inner
    exact ⟨inner.written, inner.added, rfl⟩
  | error halt e =>
    rw [hbody] at inner
    cases halt with
    | needsWalker => exact inner.elim
    | outOfMemory region => trivial

/-- A loop that needs the tree walker leaves names only, and then escapes as a whole. -/
theorem loop_of_stops {s : Statement} {body : Compile Unit}
    (h : Stops body texts { d with escapes := false }) :
    (∃ e : Draft, d.Grows [] texts e ∧ loop s body d = escape s e) ∨
      ∃ region e, loop s body d = .error (.outOfMemory region) e := by
  simp only [Stops, Meets] at h
  simp only [loop]
  cases hbody : body { d with escapes := false } with
  | ok u e =>
    rw [hbody] at h
    exact h.elim
  | error halt e =>
    rw [hbody] at h
    cases halt with
    | needsWalker =>
      obtain ⟨longer, added, -⟩ := h
      refine .inl ⟨_, ?_, rfl⟩
      refine ⟨?_, added, rfl⟩
      rw [List.append_nil, Draft.written, toList_rewind, Draft.length_code]
      exact (List.prefix_iff_eq_take.mp longer).symm
    | outOfMemory region => exact .inr ⟨region, _, rfl⟩

/-- A loop that stops inside is handed over whole, and the names that were added stay. -/
theorem emits_loop_escaped {s : Statement} {body : Compile Unit} (outside : d.escapes = true)
    (h : Stops body texts { d with escapes := false }) :
    Emits (loop s body) ((Segment.unused texts).seq (.escape s)) d := by
  intro bail
  obtain ⟨e, rewound, hloop⟩ | ⟨region, e, hloop⟩ := loop_of_stops (s := s) h
  · rw [Meets, hloop]
    apply Meets.mono (emits_escape (rewound.escapes.trans outside) bail)
    · intro _ f grown
      exact rewound.trans grown
    · exact fun _ h => h
  · rw [Meets, hloop]
    trivial

/-- A loop inside of another that needs the tree walker. -/
theorem stops_loop {s : Statement} {body : Compile Unit} (inside : d.escapes = false)
    (h : Stops body texts { d with escapes := false }) : Stops (loop s body) texts d := by
  obtain ⟨e, rewound, hloop⟩ | ⟨region, e, hloop⟩ := loop_of_stops (s := s) h
  · rw [Stops, Meets, hloop]
    apply Meets.mono (stops_escape (rewound.escapes.trans inside))
    · exact fun _ _ => id
    · rintro f ⟨longer, added, escapes⟩
      refine ⟨?_, ?_, escapes.trans rewound.escapes⟩
      · exact (rewound.written ▸ List.prefix_append _ _).trans longer
      · rw [added, rewound.added, List.append_nil]
  · rw [Stops, Meets, hloop]
    trivial

end Stops

end Compile

end StackScript
