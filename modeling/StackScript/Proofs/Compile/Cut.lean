import StackScript.Proofs.Compile.Growth
import StackScript.Proofs.Compile.Lowering
import StackScript.Proofs.StackCheck.Reachable

/-!
# Code that is cut off

Compiling with a limit on the instructions goes side by side with compiling without one, until the
limit is reached. What is there then is the code that comes out without a limit, cut off at the
limit, in which the jumps that lead beyond it do not know their targets yet: they are patched when
their targets are reached, and a jump to the limit itself is patched.
-/

namespace StackScript

open Compile

/-- The instruction as it is when so many instructions are there: a jump behind them does not know
    its target. -/
def Instruction.heldAt (limit : Nat) (i : Instruction) : Instruction :=
  match i.target? with
  | some t => if limit < t then { i with operand := some .pending } else i
  | none => i

namespace Instruction

variable {i : Instruction} {limit : Nat}

/-- A jump to an offset under the limit is set. -/
theorem heldAt_of_target?_le (h : ∀ t, i.target? = some t → t ≤ limit) : i.heldAt limit = i := by
  unfold heldAt
  split
  · rename_i t found
    exact if_neg (Nat.not_lt.mpr (h t found))
  · rfl

/-- A jump beyond the limit has not been set when the limit is reached. -/
theorem heldAt_of_lt_target? {t : Nat} (target : i.target? = some t) (beyond : limit < t) :
    i.heldAt limit = { i with operand := some .pending } := by
  simp [heldAt, target, beyond]

theorem target?_of_isFixed (fixed : i.isFixed = true) : i.target? = none := by
  have goesOn : i.op.isJump = false := by
    simp only [isFixed, Op.goesOn, Bool.and_eq_true, Bool.not_eq_true'] at fixed
    exact fixed.1.1
  simp [target?, goesOn]

/-- A jump is pending until its target is reached. -/
theorem heldAt_jumpTo {op : Op} (jumps : op.isJump = true) {t : Nat} (beyond : limit < t) :
    (jumpTo op t).heldAt limit = { op := op, operand := some .pending } :=
  heldAt_of_lt_target? (target?_eq_some.mpr ⟨jumps, rfl⟩) beyond

end Instruction

/-- The code up to the limit, with the jumps from a start on as they are when the limit is
    reached. -/
def cutAt (start limit : Nat) (code : List Instruction) : List Instruction :=
  (code.take limit).mapIdx fun k i => if k < start then i else i.heldAt limit

section CutAt

variable {start limit : Nat} {code : List Instruction}

/-- What is cut off, and which of the rest is held, instruction by instruction. -/
theorem getElem?_cutAt (k : Nat) :
    (cutAt start limit code)[k]? =
      if k < limit then code[k]?.map fun i =>
        if k < start then i else i.heldAt limit else none := by
  rw [cutAt, List.getElem?_mapIdx, List.getElem?_take]
  by_cases inside : k < limit
  · rw [if_pos inside, if_pos inside]
  · rw [if_neg inside, if_neg inside, Option.map_none]

/-- The limit is reached, if the code is long enough. -/
theorem length_cutAt : (cutAt start limit code).length = min limit code.length := by
  rw [cutAt, List.length_mapIdx, List.length_take]

/-- What is written beyond the limit makes no difference. -/
theorem cutAt_append (long : limit ≤ code.length) (more : List Instruction) :
    cutAt start limit (code ++ more) = cutAt start limit code := by
  rw [cutAt, cutAt, List.take_append_of_le_length long]

/-- A jump that is patched with a target beyond the limit is cut off as if it were open. -/
theorem cutAt_modify {offset t : Nat} {op : Op} (jumps : op.isJump = true) (behind : start ≤ offset)
    (pending : code[offset]? = some { op := op, operand := some .pending }) (beyond : limit < t) :
    cutAt start limit (code.modify offset fun i => { i with operand := some (.jump t) }) =
      cutAt start limit code := by
  apply List.ext_getElem?
  intro k
  rw [getElem?_cutAt, getElem?_cutAt]
  by_cases other : offset = k
  · subst other
    have patched : Instruction.heldAt limit { op := op, operand := some (.jump t) } =
        { op := op, operand := some .pending } :=
      Instruction.heldAt_jumpTo jumps beyond
    have unpatched : Instruction.heldAt limit { op := op, operand := some .pending } =
        { op := op, operand := some .pending } :=
      Instruction.heldAt_of_target?_le (by simp [Instruction.target?, jumps])
    rw [List.getElem?_modify_eq, pending, Option.map_eq_map, Option.map_some, Option.map_some,
      Option.map_some, if_neg (Nat.not_lt.mpr behind), if_neg (Nat.not_lt.mpr behind),
      unpatched, patched]
  · rw [List.getElem?_modify_ne _ _ other]

/-- The start is in the code, and no jump from there on leads behind the next instruction. Jumps may
    be open. -/
structure Ready (start : Nat) (code : List Instruction) : Prop where
  le : start ≤ code.length
  known : ∀ (k : Nat) (i : Instruction) (t : Nat), start ≤ k → code[k]? = some i →
    i.target? = some t → t ≤ code.length

theorem ready_self (code : List Instruction) : Ready code.length code where
  le := Nat.le_refl _
  known k i t behind found := by
    rw [List.getElem?_eq_none behind] at found
    cases found

/-- Code of which nothing is cut off, and in which no jump leads beyond its end. -/
theorem Ready.cutAt_eq (ready : Ready start code) : cutAt start code.length code = code := by
  apply List.ext_getElem?
  intro k
  rw [getElem?_cutAt]
  by_cases inside : k < code.length
  · rw [if_pos inside, List.getElem?_eq_getElem inside, Option.map_some]
    by_cases before : k < start
    · rw [if_pos before]
    · have found := List.getElem?_eq_getElem inside
      rw [if_neg before, Instruction.heldAt_of_target?_le]
      exact fun t => ready.known k _ t (Nat.not_lt.mp before) found
  · rw [if_neg inside, List.getElem?_eq_none (Nat.not_lt.mp inside)]

/-- One more instruction that is no jump ahead. -/
theorem Ready.append (ready : Ready start code) {i : Instruction}
    (near : ∀ t, i.target? = some t → t ≤ code.length) : Ready start (code ++ [i]) where
  le := by
    rw [List.length_append]
    exact Nat.le_add_right_of_le ready.le
  known k j t behind found target := by
    rw [List.length_append]
    by_cases inside : k < code.length
    · rw [List.getElem?_append_left inside] at found
      have := ready.known k j t behind found target
      omega
    · rw [List.getElem?_append_right (Nat.not_lt.mp inside), List.getElem?_singleton] at found
      split at found
      · cases found
        have := near t target
        omega
      · cases found

/-- A jump whose target is set to the end of the code. -/
theorem Ready.modify (ready : Ready start code) (offset : Nat) :
    Ready start (code.modify offset fun i => { i with operand := some (.jump code.length) }) where
  le := by
    rw [List.length_modify]
    exact ready.le
  known k j t behind found target := by
    rw [List.length_modify]
    by_cases other : offset = k
    · subst other
      rw [List.getElem?_modify_eq] at found
      obtain ⟨i, -, rfl⟩ := Option.map_eq_some_iff.mp found
      obtain ⟨-, same⟩ := Instruction.target?_eq_some.mp target
      cases same
      exact Nat.le_refl _
    · rw [List.getElem?_modify_ne _ _ other] at found
      exact ready.known k j t behind found target

end CutAt

/-! ## Side by side -/

/-- The draft with a limit on the instructions. -/
def Draft.under (d : Draft) (limit : Nat) : Draft :=
  { d with code := { d.code with limit := some limit } }

@[simp] theorem Draft.written_under (d : Draft) (limit : Nat) :
    (d.under limit).written = d.written :=
  rfl

theorem Draft.reportGrowth_under (d : Draft) (event : Option Event) (limit : Nat) :
    (reportGrowth d event).under limit = reportGrowth (d.under limit) event := by
  cases event with
  | none => rfl
  | some event => rfl

/-- Room for an instruction under no limit is room under one that has not been reached. -/
theorem Draft.hasRoom_under {d : Draft} {limit : Nat} (room : d.code.hasRoom = true)
    (below : d.written.length < limit) : (d.under limit).code.hasRoom = true := by
  obtain ⟨-, grow⟩ := d.code.hasRoom_iff.mp room
  refine (Code.hasRoom_iff _).mpr ⟨(Code.isAtLimit_eq_false _).mpr ?_, grow⟩
  rintro _ ⟨⟩
  rw [Draft.length_code]
  exact below

/-- At the limit there is no room. -/
theorem Draft.not_hasRoom_under {d : Draft} {limit : Nat} (reached : limit ≤ d.written.length) :
    ¬ (d.under limit).code.hasRoom = true := by
  intro room
  obtain ⟨free, -⟩ := (Code.hasRoom_iff _).mp room
  have below := (Code.isAtLimit_eq_false _).mp free limit rfl
  rw [Draft.length_code] at below
  exact absurd reached (Nat.not_le.mpr below)

namespace Compile

section Bind

variable {α β : Type} {step : Compile α} {rest : α → Compile β} {a : α} {b : β} {d e : Draft}

/-- A step that is done is followed by the rest. -/
theorem bind_of_ok (h : step d = .ok a e) : (step >>= rest) d = rest a e := by
  simp only [Bind.bind, EStateM.bind, h]

/-- A step that fails is the end. -/
theorem bind_of_error {halt : Halt} (h : step d = .error halt e) :
    (step >>= rest) d = .error halt e := by
  simp only [Bind.bind, EStateM.bind, h]

/-- If all is done, the first step is. -/
theorem exists_of_bind_eq_ok (h : (step >>= rest) d = .ok b e) :
    ∃ a m, step d = .ok a m ∧ rest a m = .ok b e := by
  simp only [Bind.bind, EStateM.bind] at h
  split at h
  · exact ⟨_, _, by assumption, h⟩
  · cases h

/-- What is written when an instruction is written. -/
theorem grows_of_emit_eq_ok {i : Instruction} (h : emit i d = .ok () e) : d.Grows [i] [] e := by
  have emitted : Meets (emit i) d _ fun _ => True := meets_emit i
  rwa [Meets, h] at emitted

/-- What is written when a jump is reserved. -/
theorem grows_of_reserveJump_eq_ok {op : Op} {offset : Nat} (h : reserveJump op d = .ok offset e) :
    offset = d.written.length ∧ d.Grows [{ op := op, operand := some .pending }] [] e := by
  have reserved : Meets (reserveJump op) d _ fun _ => True := meets_reserveJump op
  rwa [Meets, h] at reserved

/-- A step that keeps what is written writes behind it. -/
theorem Keeps.written_prefix {step : Compile Unit} (h : Keeps step) (ok : step d = .ok () e) :
    d.written <+: e.written := by
  have kept := h.extends_left d
  rw [ok] at kept
  exact kept.written

end Bind

/-- What a step that leads from one draft to another without a limit does with one: the same, as
    long as the limit is not reached; and when it is reached, it leaves the code cut off there. Once
    it is reached, what is cut off stays the same. -/
structure Leads {α : Type} (start limit : Nat) (step : Compile α) (d : Draft) (a : α)
    (e : Draft) : Prop where
  longer : d.written.length ≤ e.written.length
  ready : Ready start e.written
  within : e.written.length ≤ limit → step (d.under limit) = .ok a (e.under limit)
  across : d.written.length ≤ limit → limit < e.written.length → ∃ f : Draft,
    step (d.under limit) = .error (.outOfMemory .instructions) f ∧
      f.written = cutAt start limit e.written
  beyond : limit < d.written.length → cutAt start limit e.written = cutAt start limit d.written

/-- Unless the step fails without a limit, it leads to the same with a limit, or to what is cut
    off. -/
def Tracks {α : Type} (start limit : Nat) (step : Compile α) (d : Draft) : Prop :=
  ∀ a e, step d = .ok a e → Leads start limit step d a e

section Tracks

variable {α β : Type} {start limit : Nat} {d e : Draft}

/-- Two steps one after the other. -/
theorem Leads.bind {step : Compile α} {rest : α → Compile β} {a : α} {m : Draft} {b : β}
    (first : Leads start limit step d a m) (second : Leads start limit (rest a) m b e) :
    Leads start limit (step >>= rest) d b e where
  longer := Nat.le_trans first.longer second.longer
  ready := second.ready
  within below := by
    rw [bind_of_ok (first.within (Nat.le_trans second.longer below))]
    exact second.within below
  across below above := by
    by_cases reached : m.written.length ≤ limit
    · obtain ⟨f, failed, left⟩ := second.across reached above
      rw [bind_of_ok (first.within reached)]
      exact ⟨f, failed, left⟩
    · have early := Nat.not_le.mp reached
      obtain ⟨f, failed, left⟩ := first.across below early
      exact ⟨f, bind_of_error failed, left.trans (second.beyond early).symm⟩
  beyond above :=
    (second.beyond (Nat.lt_of_lt_of_le above first.longer)).trans (first.beyond above)

/-- Steps one after the other go side by side with those under the limit until it is reached. -/
theorem Tracks.bind {step : Compile α} {rest : α → Compile β} (first : Tracks start limit step d)
    (second : ∀ a m, step d = .ok a m → Ready start m.written → Tracks start limit (rest a) m) :
    Tracks start limit (step >>= rest) d := by
  intro b e done
  obtain ⟨a, m, half, rest⟩ := exists_of_bind_eq_ok done
  have led := first a m half
  exact led.bind (second a m half led.ready b e rest)

/-- The step adds no code, and does not look at the limit. -/
theorem tracks_same {step : Compile α} (ready : Ready start d.written)
    (h : ∀ a e, step d = .ok a e → e.written = d.written ∧
      step (d.under limit) = .ok a (e.under limit)) :
    Tracks start limit step d := by
  intro a e done
  obtain ⟨same, limited⟩ := h a e done
  refine ⟨by rw [same], by rwa [same], fun _ => limited, ?_, fun _ => by rw [same]⟩
  intro below above
  rw [same] at above
  omega

theorem tracks_pure (a : α) (ready : Ready start d.written) : Tracks start limit (pure a) d :=
  tracks_same ready (by rintro a e ⟨⟩; exact ⟨rfl, rfl⟩)

theorem tracks_position (ready : Ready start d.written) : Tracks start limit position d :=
  tracks_same ready (by rintro a e ⟨⟩; exact ⟨rfl, rfl⟩)

theorem tracks_report (event : Event) (ready : Ready start d.written) :
    Tracks start limit (report event) d :=
  tracks_same ready (by rintro a e ⟨⟩; exact ⟨rfl, rfl⟩)

/-- Adding a name writes nothing, and goes on in the same way. -/
theorem tracks_intern (text : String) (ready : Ready start d.written) :
    Tracks start limit (intern text) d := by
  apply tracks_same ready
  intro n e done
  by_cases room : d.names.hasRoom = true
  · have room' : (d.under limit).names.hasRoom = true := room
    simp only [intern, if_pos room] at done
    simp only [intern, if_pos room']
    cases done
    refine ⟨?_, ?_⟩
    · cases d.names.growth? <;> rfl
    · rw [Draft.reportGrowth_under]
      rfl
  · simp [intern, room] at done

theorem tracks_copy (text : String) (ready : Ready start d.written) :
    Tracks start limit (copy text) d := by
  apply tracks_same ready
  intro copied e done
  simp only [copy] at done
  split at done
  · rename_i text' arena found
    have found' : (d.under limit).arena.copy text = .ok (text', arena) := found
    cases done
    simp only [copy, found']
    exact ⟨rfl, rfl⟩
  · cases done

/-- The instruction that reaches the limit is the first that is not added. -/
theorem tracks_emit {i : Instruction} (near : ∀ t, i.target? = some t → t ≤ d.written.length)
    (ready : Ready start d.written) : Tracks start limit (emit i) d := by
  intro _ e done
  have written := (grows_of_emit_eq_ok done).written
  have length : e.written.length = d.written.length + 1 := by simp [written]
  have room : d.code.hasRoom = true := by
    by_contra full
    simp [emit, full] at done
  refine ⟨by omega, ?_, ?_, ?_, ?_⟩
  · rw [written]
    exact ready.append near
  · intro below
    simp only [emit, if_pos room] at done
    simp only [emit, if_pos (Draft.hasRoom_under room (by omega : d.written.length < limit))]
    cases done
    rw [Draft.reportGrowth_under]
    rfl
  · intro below above
    have reached : d.written.length = limit := by omega
    refine ⟨d.under limit, ?_, ?_⟩
    · simp only [emit, if_neg (Draft.not_hasRoom_under (Nat.le_of_eq reached.symm))]
    · rw [written, cutAt_append (Nat.le_of_eq reached.symm), ← reached, ready.cutAt_eq]
      rfl
  · intro above
    rw [written, cutAt_append (Nat.le_of_lt above)]

/-- A jump that is reserved has no target yet, so that it is not held back. -/
theorem tracks_reserveJump (op : Op) (ready : Ready start d.written) :
    Tracks start limit (reserveJump op) d := by
  apply (tracks_position ready).bind
  intro offset m _ ready₁
  apply (tracks_emit (by simp [Instruction.target?]) ready₁).bind
  intro _ m' _ ready₂
  exact tracks_pure offset ready₂

/-- A reserved jump is patched. Beyond the limit that is the same as leaving it open. -/
theorem tracks_patchJump {op : Op} {offset : Nat} (jumps : op.isJump = true)
    (behind : start ≤ offset)
    (pending : d.written[offset]? = some { op := op, operand := some .pending })
    (ready : Ready start d.written) :
    Tracks start limit (patchJump offset) d := by
  rintro _ e ⟨⟩
  have written := d.written_setOperand offset (some (.jump d.code.length))
  rw [Draft.length_code] at written
  have length := congrArg List.length written
  rw [List.length_modify] at length
  rw [Draft.length_code]
  refine ⟨Nat.le_of_eq length.symm, ?_, ?_, ?_, ?_⟩
  · rw [written]
    exact ready.modify offset
  · intro _
    simp only [patchJump, Draft.length_code, Draft.written_under]
    rfl
  · intro below above
    rw [length] at above
    omega
  · intro above
    rw [written, cutAt_modify jumps behind pending above]

end Tracks

/-- With a limit on the instructions the step leaves the code cut off at the limit. -/
structure Cuts (step : Compile Unit) : Prop where
  keeps : Keeps step
  tracks : ∀ {start limit : Nat} {d : Draft}, Ready start d.written → Tracks start limit step d

section Cuts

variable {first second body test consequent alternate : Compile Unit}

/-- One after the other. -/
theorem Cuts.seq (h₁ : Cuts first) (h₂ : Cuts second) : Cuts (do first; second) where
  keeps := Compile.keeps.seq h₁.keeps h₂.keeps
  tracks ready := (h₁.tracks ready).bind fun _ _ _ ready₁ => h₂.tracks ready₁

/-- An instruction that is no jump. -/
theorem cuts_emit {i : Instruction} (h : i.target? = none) : Cuts (emit i) where
  keeps := Compile.keeps.emit i
  tracks := tracks_emit (by simp [h])

/-- An instruction on a name. -/
theorem cuts_named (op : Op) (text : String) (extra : Option Operand) : Cuts (do
    let n ← intern text
    emit { op := op, operand := some (.name n), extra := extra }) where
  keeps := Compile.keeps.named op text extra
  tracks ready := (tracks_intern text ready).bind fun _ _ _ =>
    tracks_emit (by simp [Instruction.target?])

theorem cuts_copied (text : String) {rest : String → Compile Unit}
    (h : ∀ copied, Cuts (rest copied)) :
    Cuts (copy text >>= rest) where
  keeps := Compile.keeps.copied text fun copied => (h copied).keeps
  tracks ready := (tracks_copy text ready).bind fun copied _ _ ready₁ => (h copied).tracks ready₁

/-- A reserved jump is pending. -/
theorem pending_of_reserveJump {op : Op} {offset : Nat} {d e : Draft}
    (h : reserveJump op d = .ok offset e) :
    e.written[offset]? = some { op := op, operand := some .pending } := by
  obtain ⟨rfl, grown⟩ := grows_of_reserveJump_eq_ok h
  rw [grown.written]
  exact List.getElem?_concat_length

/-- A reserved jump is written behind the rest. -/
theorem prefix_of_reserveJump {op : Op} {offset : Nat} {d e : Draft}
    (h : reserveJump op d = .ok offset e) :
    d.written <+: e.written := by
  rw [(grows_of_reserveJump_eq_ok h).2.written]
  exact List.prefix_append _ _

theorem le_of_reserveJump {op : Op} {offset start : Nat} {d e : Draft}
    (h : reserveJump op d = .ok offset e)
    (le : start ≤ d.written.length) : start ≤ offset := by
  obtain ⟨rfl, -⟩ := grows_of_reserveJump_eq_ok h
  exact le

/-- Setting the target of a jump changes no other instruction. -/
theorem getElem?_of_patchJump {offset k : Nat} {d e : Draft} {i : Instruction}
    (h : patchJump offset d = .ok () e)
    (other : offset ≠ k) (found : d.written[k]? = some i) : e.written[k]? = some i := by
  cases h
  rw [Draft.written_setOperand, List.getElem?_modify_ne _ _ other]
  exact found

/-- A body that may be skipped. -/
theorem Cuts.skip {op : Op} (jumps : op.isJump = true) (h : Cuts body) : Cuts (do
    let toEnd ← reserveJump op
    body
    patchJump toEnd) where
  keeps := Compile.keeps.skip op h.keeps
  tracks ready := by
    apply (tracks_reserveJump op ready).bind
    intro toEnd d₁ reserved ready₁
    apply (h.tracks ready₁).bind
    intro _ d₂ inner ready₂
    have pending := getElem?_mono (h.keeps.written_prefix inner) (pending_of_reserveJump reserved)
    exact tracks_patchJump jumps (le_of_reserveJump reserved ready.le) pending ready₂

/-- A choice. -/
theorem Cuts.branch {op : Op} (jumps : op.isJump = true) (h₁ : Cuts consequent)
    (h₂ : Cuts alternate) : Cuts (do
    let toAlternate ← reserveJump op
    consequent
    let toEnd ← reserveJump .jump
    patchJump toAlternate
    alternate
    patchJump toEnd) where
  keeps := Compile.keeps.branch op h₁.keeps h₂.keeps
  tracks ready := by
    apply (tracks_reserveJump op ready).bind
    intro toAlternate d₁ reserved₁ ready₁
    apply (h₁.tracks ready₁).bind
    intro _ d₂ inner₁ ready₂
    have pending₁ :=
      getElem?_mono (h₁.keeps.written_prefix inner₁) (pending_of_reserveJump reserved₁)
    apply (tracks_reserveJump .jump ready₂).bind
    intro toEnd d₃ reserved₂ ready₃
    have before : toAlternate < toEnd := by
      obtain ⟨inside, -⟩ := List.getElem?_eq_some_iff.mp pending₁
      exact Nat.lt_of_lt_of_le inside (le_of_reserveJump reserved₂ (Nat.le_refl _))
    have behind := le_of_reserveJump reserved₁ ready.le
    have pending₂ := getElem?_mono (prefix_of_reserveJump reserved₂) pending₁
    apply (tracks_patchJump jumps behind pending₂ ready₃).bind
    intro _ d₄ patched ready₄
    have pending₃ :=
      getElem?_of_patchJump patched (Nat.ne_of_lt before) (pending_of_reserveJump reserved₂)
    apply (h₂.tracks ready₄).bind
    intro _ d₅ inner₂ ready₅
    have pending₄ := getElem?_mono (h₂.keeps.written_prefix inner₂) pending₃
    exact tracks_patchJump rfl (Nat.le_trans behind (Nat.le_of_lt before)) pending₄ ready₅

/-- The jump back to the start of a loop. -/
theorem tracks_jumpBack {start limit : Nat} {d e : Draft} (longer : d.written <+: e.written)
    (ready : Ready start e.written) :
    Tracks start limit (emitWith .jump (.jump d.code.length)) e := by
  apply tracks_emit _ ready
  rintro t ⟨⟩
  rw [Draft.length_code]
  exact longer.length_le

/-- A loop with a test, which jumps back to where it began. -/
theorem Cuts.cycle (h₁ : Cuts test) (h₂ : Cuts body) : Cuts (do
    let start ← position
    test
    let toEnd ← reserveJump .jumpIfFalse
    body
    emitWith .jump (.jump start)
    patchJump toEnd) where
  keeps := Compile.keeps.cycle h₁.keeps h₂.keeps
  tracks ready := by
    apply (tracks_position ready).bind
    rintro _ d ⟨⟩ ready
    apply (h₁.tracks ready).bind
    intro _ d₁ tested ready₁
    have longer₁ := h₁.keeps.written_prefix tested
    apply (tracks_reserveJump .jumpIfFalse ready₁).bind
    intro toEnd d₂ reserved ready₂
    apply (h₂.tracks ready₂).bind
    intro _ d₃ inner ready₃
    have longer₂ := h₂.keeps.written_prefix inner
    have pending₁ := getElem?_mono longer₂ (pending_of_reserveJump reserved)
    have whole := longer₁.trans ((prefix_of_reserveJump reserved).trans longer₂)
    apply (tracks_jumpBack whole ready₃).bind
    intro _ d₄ back ready₄
    have longer₃ : d₃.written <+: d₄.written := by
      rw [(grows_of_emit_eq_ok back).written]
      exact List.prefix_append _ _
    have behind := le_of_reserveJump reserved ready₁.le
    exact tracks_patchJump rfl behind (getElem?_mono longer₃ pending₁) ready₄

/-- A loop without a test. -/
theorem Cuts.forever (h : Cuts body) : Cuts (do
    let start ← position
    body
    emitWith .jump (.jump start)) where
  keeps := Compile.keeps.forever h.keeps
  tracks ready := by
    apply (tracks_position ready).bind
    rintro _ d ⟨⟩ ready
    apply (h.tracks ready).bind
    intro _ d₁ inner ready₁
    exact tracks_jumpBack (h.keeps.written_prefix inner) ready₁

theorem cuts_report (event : Event) : Cuts (report event) where
  keeps := Compile.keeps.report event
  tracks := tracks_report event

/-- Handing over to the tree walker is one instruction, if it is allowed. -/
theorem cuts_escape (tree : Statement) : Cuts (escape tree) where
  keeps := keeps_escape tree
  tracks {start limit d} ready := by
    intro _ e done
    by_cases escapes : d.escapes = true
    · have emitted : escape tree d = emitWith .escape (.statement tree) d := by
        simp [escape, escapes]
      have emitted' : escape tree (d.under limit) =
          emitWith .escape (.statement tree) (d.under limit) := by
        simp [escape, Draft.under, escapes]
      rw [emitted] at done
      obtain ⟨longer, ready', within, across, beyond⟩ :
          Leads start limit (emitWith .escape (.statement tree)) d () e :=
        tracks_emit (by rintro t ⟨⟩) ready () e done
      exact ⟨longer, ready', emitted' ▸ within, emitted' ▸ across, beyond⟩
    · simp [escape, escapes] at done

/-- A loop of which nothing is ever left to the tree walker. -/
theorem Cuts.loop (tree : Statement) (h : Cuts body)
    (inline : ∀ d e : Draft, d.escapes = false → body d ≠ .error .needsWalker e) :
    Cuts (loop tree body) where
  keeps := keeps_loop tree h.keeps
  tracks {start limit d} ready := by
    intro _ e done
    simp only [Compile.loop] at done
    cases hbody : body { d with escapes := false } with
    | ok _ m =>
      rw [hbody] at done
      cases done
      have inside : Ready start ({ d with escapes := false } : Draft).written := ready
      obtain ⟨longer, ready', within, across, beyond⟩ : Leads start limit body _ () m :=
        h.tracks inside () m hbody
      refine ⟨longer, ready', ?_, ?_, beyond⟩
      · intro below
        have same : body { d.under limit with escapes := false } = .ok () (m.under limit) :=
          within below
        simp only [Compile.loop, same]
        rfl
      · intro below above
        obtain ⟨f, failed, left⟩ := across below above
        have same : body { d.under limit with escapes := false } =
            .error (.outOfMemory .instructions) f := failed
        simp only [Compile.loop, same]
        exact ⟨_, rfl, left⟩
    | error halt m =>
      rw [hbody] at done
      cases halt with
      | needsWalker => exact absurd hbody (inline _ m rfl)
      | outOfMemory region => cases done

/-- Expressions, and the rounds of loops. -/
theorem cuts_cyclic : Assembler.direct.Cyclic fun _ step => Cuts step where
  nothing := ⟨Compile.keeps.nothing, tracks_pure ()⟩
  seq := Cuts.seq
  emit fixed _ := cuts_emit (Instruction.target?_of_isFixed fixed)
  named _ _ _ _ := cuts_named _ _ _
  copied text _ _ rest := cuts_copied text rest
  overflow := ⟨Compile.keeps.overflow, by rintro _ _ _ - _ _ ⟨⟩⟩
  skip := Cuts.skip
  branch _ := Cuts.branch
  cycle := Cuts.cycle
  forever := Cuts.forever

end Cuts

end Compile

end StackScript
