import StackScript.Proofs.Segment.Shape
import StackScript.Proofs.StackCheck.Reachable

/-!
# Shapes at offsets

A segment that stands in code has one shape of the stack before each of its instructions, wherever
control came from. The shapes of its parts are put together; what has to be seen is that they agree
where the parts meet, and where the jumps lead.
-/

namespace StackScript

/-- The shapes at offsets fit the instruction at an offset, and its jump stays within bounds. -/
structure Instruction.Agrees (i : Instruction) (shape : Nat → Shape) (lo hi o : Nat) : Prop where
  stays : i.op ≠ .ret
  enough : i.takes <+: shape o
  onward : i.op ≠ .jump → i.Turns (shape o) (shape (o + 1))
  taken : i.op = .jump ∨ i.op = .jumpIfFalse →
    ∃ t, i.operand = some (.jump t) ∧ lo ≤ t ∧ t ≤ hi ∧ i.Turns (shape o) (shape t)
  kept : i.op = .jumpIfFalseOrPop ∨ i.op = .jumpIfTrueOrPop →
    ∃ t, i.operand = some (.jump t) ∧ lo ≤ t ∧ t ≤ hi ∧ shape t = shape o

/-- The shapes fit each instruction from `a` up to `b`, with jumps from `lo` to `hi` at most. -/
def Typed (code : Array Instruction) (shape : Nat → Shape) (lo hi a b : Nat) : Prop :=
  ∀ o, a ≤ o → o < b → ∃ i, code[o]? = some i ∧ i.Agrees shape lo hi o

section Typed

variable {code : Array Instruction} {shape shape' : Nat → Shape} {lo hi a b m o : Nat}
  {i : Instruction}

theorem Instruction.Turns.enough {s s' : Shape} (h : i.Turns s s') : i.takes <+: s := by
  obtain ⟨rest, rfl, -⟩ := h
  exact List.prefix_append _ _

/-- A wider range of targets. -/
theorem Instruction.Agrees.widen {lo' hi' : Nat} (h : i.Agrees shape lo hi o) (hlo : lo' ≤ lo)
    (hhi : hi ≤ hi') : i.Agrees shape lo' hi' o where
  stays := h.stays
  enough := h.enough
  onward := h.onward
  taken := by
    intro jumps
    obtain ⟨t, operand, above, below, turns⟩ := h.taken jumps
    exact ⟨t, operand, by omega, by omega, turns⟩
  kept := by
    intro jumps
    obtain ⟨t, operand, above, below, same⟩ := h.kept jumps
    exact ⟨t, operand, by omega, by omega, same⟩

/-- Shapes out of bounds do not matter. -/
theorem Instruction.Agrees.congr (h : i.Agrees shape lo hi o)
    (same : ∀ p, lo ≤ p → p ≤ hi → shape' p = shape p) (above : lo ≤ o) (below : o < hi) :
    i.Agrees shape' lo hi o where
  stays := h.stays
  enough := by
    rw [same o above (by omega)]
    exact h.enough
  onward := by
    rw [same o above (by omega), same (o + 1) (by omega) (by omega)]
    exact h.onward
  taken := by
    intro jumps
    obtain ⟨t, operand, hlo, hhi, turns⟩ := h.taken jumps
    rw [same o above (by omega)]
    exact ⟨t, operand, hlo, hhi, by rwa [same t hlo hhi]⟩
  kept := by
    intro jumps
    obtain ⟨t, operand, hlo, hhi, kept⟩ := h.kept jumps
    rw [same o above (by omega)]
    exact ⟨t, operand, hlo, hhi, by rwa [same t hlo hhi]⟩

theorem Typed.widen {lo' hi' : Nat} (h : Typed code shape lo hi a b) (hlo : lo' ≤ lo)
    (hhi : hi ≤ hi') : Typed code shape lo' hi' a b := by
  intro o above below
  obtain ⟨i, found, agrees⟩ := h o above below
  exact ⟨i, found, agrees.widen hlo hhi⟩

/-- Two stretches of code, one behind the other. -/
theorem Typed.join (first : Typed code shape lo hi a m) (second : Typed code shape lo hi m b) :
    Typed code shape lo hi a b := by
  intro o above below
  by_cases hm : o < m
  · exact first o above hm
  · exact second o (by omega) below

/-- Only the shapes inside count. -/
theorem Typed.congr (h : Typed code shape lo hi lo hi) (shape' : Nat → Shape)
    (same : ∀ p, lo ≤ p → p ≤ hi → shape' p = shape p) : Typed code shape' lo hi lo hi := by
  intro o above below
  obtain ⟨i, found, agrees⟩ := h o above below
  exact ⟨i, found, agrees.congr same above below⟩

theorem typed_empty : Typed code shape lo hi a a :=
  fun _ _ _ => by omega

/-- A single instruction. -/
theorem typed_single (found : code[o]? = some i) (agrees : i.Agrees shape lo hi o) :
    Typed code shape lo hi o (o + 1) := by
  intro p above below
  obtain rfl : p = o := by omega
  exact ⟨i, found, agrees⟩

/-- An instruction after which control goes on turns its own shape into the next. -/
theorem agrees_of_goesOn (goesOn : i.op.goesOn = true) (turns : i.Turns (shape o) (shape (o + 1))) :
    i.Agrees shape lo hi o := by
  obtain ⟨op, operand, extra⟩ := i
  refine ⟨?_, turns.enough, fun _ => turns, ?_, ?_⟩ <;> cases op <;>
    simp_all [Op.goesOn, Op.isJump]

/-- A jump leads to an offset of the same shape. -/
theorem agrees_jump {t : Nat} (above : lo ≤ t) (below : t ≤ hi) (same : shape t = shape o) :
    (Instruction.jumpTo .jump t).Agrees shape lo hi o where
  stays := by simp [Instruction.jumpTo]
  enough := List.nil_prefix
  onward := fun h => absurd rfl h
  taken := fun _ => ⟨t, rfl, above, below, shape o, rfl, same⟩
  kept := by simp [Instruction.jumpTo]

/-- A tested value is gone on both ways. -/
theorem agrees_jumpIfFalse {t : Nat} {rest : Shape} (above : lo ≤ t) (below : t ≤ hi)
    (here : shape o = .value :: rest) (next : shape (o + 1) = rest) (there : shape t = rest) :
    (Instruction.jumpTo .jumpIfFalse t).Agrees shape lo hi o where
  stays := by simp [Instruction.jumpTo]
  enough := ⟨rest, here.symm⟩
  onward := fun _ => ⟨rest, here, next⟩
  taken := fun _ => ⟨t, rfl, above, below, rest, here, there⟩
  kept := by simp [Instruction.jumpTo]

/-- A jump that keeps the tested value. -/
theorem agrees_jumpOrPop {op : Op} {t : Nat} {rest : Shape}
    (keeps : op = .jumpIfFalseOrPop ∨ op = .jumpIfTrueOrPop) (above : lo ≤ t) (below : t ≤ hi)
    (here : shape o = .value :: rest) (next : shape (o + 1) = rest)
    (there : shape t = .value :: rest) : (Instruction.jumpTo op t).Agrees shape lo hi o := by
  obtain rfl | rfl := keeps
  all_goals exact {
    stays := by simp [Instruction.jumpTo]
    enough := ⟨rest, here.symm⟩
    onward := fun _ => ⟨rest, here, next⟩
    taken := by simp [Instruction.jumpTo]
    kept := fun _ => ⟨t, rfl, above, below, there.trans here.symm⟩ }

end Typed

/-- One assignment of shapes up to an offset, and another behind it. -/
def joinAt (m : Nat) (f g : Nat → Shape) (o : Nat) : Shape :=
  if o ≤ m then f o else g o

theorem joinAt_of_le {m o : Nat} {f g : Nat → Shape} (h : o ≤ m) : joinAt m f g o = f o :=
  if_pos h

theorem joinAt_of_lt {m o : Nat} {f g : Nat → Shape} (h : m < o) : joinAt m f g o = g o :=
  if_neg (by omega)

/-- Where the two meet they agree. -/
theorem joinAt_of_ge {m o : Nat} {f g : Nat → Shape} (meet : f m = g m) (h : m ≤ o) :
    joinAt m f g o = g o := by
  by_cases heq : o = m
  · subst heq
    rw [joinAt_of_le le_rfl, meet]
  · exact joinAt_of_lt (by omega)

namespace Segment

/-- There are shapes for the instructions from an offset on, which begin and end as given. -/
def Typable (code : Array Instruction) (o size : Nat) (s s' : Shape) : Prop :=
  ∃ shape : Nat → Shape, shape o = s ∧ shape (o + size) = s' ∧
    Typed code shape o (o + size) o (o + size)

variable {code : Array Instruction} {o : Nat} {s s' mid rest : Shape} {m n : Nat}

theorem typable_single {i : Instruction} (found : code[o]? = some i) (goesOn : i.op.goesOn = true)
    (turns : i.Turns s s') : Typable code o 1 s s' := by
  refine ⟨joinAt o (fun _ => s) fun _ => s', joinAt_of_le le_rfl, joinAt_of_lt (by omega), ?_⟩
  refine typed_single found (agrees_of_goesOn goesOn ?_)
  rwa [joinAt_of_le le_rfl, joinAt_of_lt (by omega)]

/-- Two stretches with the same shape between them. -/
theorem Typable.seq (first : Typable code o m s mid) (second : Typable code (o + m) n mid s') :
    Typable code o (m + n) s s' := by
  obtain ⟨f, hf, hf', typed⟩ := first
  obtain ⟨g, hg, hg', typed'⟩ := second
  have meet : f (o + m) = g (o + m) := hf'.trans hg.symm
  rw [Nat.add_assoc] at hg' typed'
  refine ⟨joinAt (o + m) f g, ?_, ?_, ?_⟩
  · rw [joinAt_of_le (by omega), hf]
  · rw [joinAt_of_ge meet (by omega), hg']
  · have left := typed.congr (joinAt (o + m) f g) fun p _ below => joinAt_of_le below
    have right := typed'.congr (joinAt (o + m) f g) fun p above _ =>
      joinAt_of_ge meet above
    exact (left.widen le_rfl (by omega)).join (right.widen (by omega) le_rfl)

/-- A body that may be skipped leaves as much as the value that it replaces. -/
theorem Typable.skip {op : Op} (found : code[o]? = some (.jumpTo op (o + 1 + m)))
    (keeps : op = .jumpIfFalseOrPop ∨ op = .jumpIfTrueOrPop)
    (body : Typable code (o + 1) m rest (.value :: rest)) :
    Typable code o (m + 1) (.value :: rest) (.value :: rest) := by
  obtain ⟨f, hf, hf', typed⟩ := body
  have stop : o + (m + 1) = o + 1 + m := by omega
  rw [Typable, stop]
  have start : joinAt o (fun _ => .value :: rest) f o = .value :: rest := joinAt_of_le le_rfl
  have behind {p : Nat} (h : o < p) : joinAt o (fun _ => .value :: rest) f p = f p :=
    joinAt_of_lt h
  refine ⟨joinAt o (fun _ => .value :: rest) f, start, ?_, ?_⟩
  · rw [behind (by omega), hf']
  · refine (typed_single found ?_).join ((typed.congr _ ?_).widen (by omega) le_rfl)
    · refine agrees_jumpOrPop keeps (by omega) le_rfl start ?_ ?_
      · rw [behind (by omega), hf]
      · rw [behind (by omega), hf']
    · exact fun p above _ => behind (by omega)

/-- Both sides of a choice leave the same shape. -/
theorem Typable.branch {keeps : Bool}
    (found : code[o]? = some (.jumpTo (branchOp keeps) (o + 1 + m + 1)))
    (consequent : Typable code (o + 1) m rest s')
    (found' : code[o + 1 + m]? = some (.jumpTo .jump (o + 1 + m + 1 + n)))
    (alternate : Typable code (o + 1 + m + 1) n (if keeps then .value :: rest else rest) s') :
    Typable code o (m + n + 2) (.value :: rest) s' := by
  obtain ⟨f, hf, hf', typed⟩ := consequent
  obtain ⟨g, hg, hg', typed'⟩ := alternate
  have stop : o + (m + n + 2) = o + 1 + m + 1 + n := by omega
  rw [Typable, stop]
  let shape := joinAt o (fun _ => .value :: rest) (joinAt (o + 1 + m) f g)
  have start : shape o = .value :: rest := joinAt_of_le le_rfl
  have left {p : Nat} (above : o < p) (below : p ≤ o + 1 + m) : shape p = f p :=
    (joinAt_of_lt above).trans (joinAt_of_le below)
  have right {p : Nat} (above : o + 1 + m < p) : shape p = g p :=
    (joinAt_of_lt (by omega)).trans (joinAt_of_lt above)
  have hnext : shape (o + 1) = rest := (left (by omega) (by omega)).trans hf
  have hleft : shape (o + 1 + m) = s' := (left (by omega) le_rfl).trans hf'
  have hright : shape (o + 1 + m + 1 + n) = s' := (right (by omega)).trans hg'
  have hmiddle := (right (Nat.lt_succ_self _)).trans hg
  refine ⟨shape, start, hright, ?_⟩
  refine (typed_single found ?_).join (Typed.join (m := o + 1 + m) ?_
    (Typed.join (typed_single found' ?_) ?_))
  · cases keeps with
    | true => exact agrees_jumpOrPop (.inl rfl) (by omega) (by omega) start hnext hmiddle
    | false => exact agrees_jumpIfFalse (by omega) (by omega) start hnext hmiddle
  · exact (typed.congr shape fun p above below => left (by omega) below).widen (by omega) (by omega)
  · exact agrees_jump (by omega) le_rfl (hright.trans hleft.symm)
  · exact (typed'.congr shape fun p above _ => right (by omega)).widen (by omega) le_rfl

/-- Each round of a loop leaves the shape in which it began. -/
theorem Typable.cycle (test : Typable code o m s (.value :: s'))
    (found : code[o + m]? = some (.jumpTo .jumpIfFalse (o + m + 1 + n + 1)))
    (body : Typable code (o + m + 1) n s' s)
    (found' : code[o + m + 1 + n]? = some (.jumpTo .jump o)) :
    Typable code o (m + n + 2) s s' := by
  obtain ⟨f, hf, hf', typed⟩ := test
  obtain ⟨g, hg, hg', typed'⟩ := body
  have stop : o + (m + n + 2) = o + m + 1 + n + 1 := by omega
  rw [Typable, stop]
  let shape := joinAt (o + m) f (joinAt (o + m + 1 + n) g fun _ => s')
  have left {p : Nat} (below : p ≤ o + m) : shape p = f p := joinAt_of_le below
  have right {p : Nat} (above : o + m < p) (below : p ≤ o + m + 1 + n) : shape p = g p :=
    (joinAt_of_lt above).trans (joinAt_of_le below)
  have hstart : shape o = s := (left (by omega)).trans hf
  have htested : shape (o + m) = .value :: s' := (left le_rfl).trans hf'
  have hbody : shape (o + m + 1) = s' := (right (by omega) (by omega)).trans hg
  have hback : shape (o + m + 1 + n) = s := (right (by omega) le_rfl).trans hg'
  have hend : shape (o + m + 1 + n + 1) = s' :=
    (joinAt_of_lt (by omega)).trans (joinAt_of_lt (by omega))
  refine ⟨shape, hstart, hend, ?_⟩
  refine Typed.join (m := o + m) ?_ (Typed.join (typed_single found ?_)
    (Typed.join (m := o + m + 1 + n) ?_ (typed_single found' ?_)))
  · exact (typed.congr shape fun p _ below => left below).widen le_rfl (by omega)
  · exact agrees_jumpIfFalse (by omega) le_rfl htested hbody hend
  · exact (typed'.congr shape fun p above below => right (by omega) below).widen (by omega)
      (by omega)
  · exact agrees_jump le_rfl (by omega) (hstart.trans hback.symm)

/-- What follows a loop that does not end may have any shape. -/
theorem Typable.forever (body : Typable code o m s s)
    (found : code[o + m]? = some (.jumpTo .jump o)) : Typable code o (m + 1) s s' := by
  obtain ⟨f, hf, hf', typed⟩ := body
  have left {p : Nat} (below : p ≤ o + m) : joinAt (o + m) f (fun _ => s') p = f p :=
    joinAt_of_le below
  refine ⟨joinAt (o + m) f fun _ => s', (left (by omega)).trans hf, joinAt_of_lt (by omega), ?_⟩
  refine Typed.join (m := o + m) ?_ (typed_single found ?_)
  · exact (typed.congr _ fun p _ below => left below).widen le_rfl (by omega)
  · refine agrees_jump le_rfl (by omega) ?_
    rw [left (by omega), left le_rfl, hf, hf']

/-- A segment that leads from one shape to another can be given shapes wherever it stands. -/
theorem typable_of_fits (a : Segment) (fits : a.Fits s s') (stands : Stands code o (a.place o n)) :
    Typable code o a.size s s' := by
  induction a generalizing o n s s' with
  | plain i fixed =>
    obtain ⟨found, -⟩ := stands
    exact typable_single found (Bool.and_eq_true_iff.mp fixed).1 fits
  | named op text extra goesOn =>
    obtain ⟨found, -⟩ := stands
    exact typable_single found goesOn (fits n)
  | unused texts =>
    exact ⟨fun _ => s, rfl, fits.symm, typed_empty⟩
  | seq first second ih₁ ih₂ =>
    obtain ⟨mid, fits₁, fits₂⟩ := fits
    obtain ⟨stands₁, stands₂⟩ := stands_seq.mp stands
    exact (ih₁ fits₁ stands₁).seq (ih₂ fits₂ stands₂)
  | skip operator body ih =>
    obtain ⟨rest, rfl, rfl, fits⟩ := fits
    obtain ⟨found, stands⟩ := stands_skip.mp stands
    refine Typable.skip found ?_ (ih fits stands)
    cases operator
    · exact .inl rfl
    · exact .inr rfl
  | branch keeps consequent alternate ih₁ ih₂ =>
    obtain ⟨rest, rfl, fits₁, fits₂⟩ := fits
    obtain ⟨found, stands₁, found', stands₂⟩ := stands_branch.mp stands
    exact Typable.branch found (ih₁ fits₁ stands₁) found' (ih₂ fits₂ stands₂)
  | cycle test body ih₁ ih₂ =>
    obtain ⟨fits₁, fits₂⟩ := fits
    obtain ⟨stands₁, found, stands₂, found'⟩ := stands_cycle.mp stands
    exact Typable.cycle (ih₁ fits₁ stands₁) found (ih₂ fits₂ stands₂) found'
  | forever body ih =>
    obtain ⟨stands, found⟩ := stands_forever.mp stands
    exact Typable.forever (ih fits stands) found

end Segment

/-! ## Entry points -/

namespace StackCheck

variable {code : Array Instruction} {shape : Nat → Shape} {start stop : Nat}

/-- An instruction that turns one shape into another leads from the depth of the one to that of the
    other. -/
theorem depthAfter_of_turns {i : Instruction} {s s' : Shape} (h : i.Turns s s') :
    depthAfter s.length i = s'.length := by
  obtain ⟨rest, rfl, rfl⟩ := h
  rw [depthAfter, Instruction.effect_eq]
  simp
  omega

/-- On the paths from the start the depth is that of the shape. -/
theorem depth_of_reachable (typed : Typed code shape start stop start stop) (le : start ≤ stop)
    (empty : shape start = []) (found : code[stop]? = some { op := .ret }) {spot : Spot}
    (reached : Reachable code start spot) :
    start ≤ spot.offset ∧ spot.offset ≤ stop ∧ spot.depth = (shape spot.offset).length := by
  induction reached with
  | refl => exact ⟨le_rfl, le, by simp [empty]⟩
  | @tail spot dest _ hedge ih =>
    obtain ⟨above, below, depth⟩ := ih
    by_cases hstop : spot.offset = stop
    · obtain ⟨-, h⟩ := (edge_iff (hstop ▸ found)).mp hedge
      simp at h
    · obtain ⟨i, hi, agrees⟩ := typed spot.offset above (by omega)
      obtain ⟨-, ⟨-, falls, rfl⟩ | ⟨jumps, t, target, rfl⟩ | ⟨jumps, t, target, rfl⟩⟩ :=
        (edge_iff hi).mp hedge
      · exact ⟨Nat.le_succ_of_le above, Nat.lt_of_le_of_ne below hstop,
          by rw [depth]; exact depthAfter_of_turns (agrees.onward falls)⟩
      · obtain ⟨t', operand, hlo, hhi, turns⟩ := agrees.taken jumps
        obtain ⟨-, operand'⟩ := Instruction.target?_eq_some.mp target
        obtain rfl : t' = t := by simpa [operand'] using operand.symm
        exact ⟨hlo, hhi, by rw [depth]; exact depthAfter_of_turns turns⟩
      · obtain ⟨t', operand, hlo, hhi, same⟩ := agrees.kept jumps
        obtain ⟨-, operand'⟩ := Instruction.target?_eq_some.mp target
        obtain rfl : t' = t := by simpa [operand'] using operand.symm
        exact ⟨hlo, hhi, by rw [same]; exact depth⟩

/-- Code that has shapes from its start to a return, where one value is left, is sound. -/
theorem sound_of_typed (typed : Typed code shape start stop start stop) (le : start ≤ stop)
    (empty : shape start = []) (single : shape stop = [.value])
    (found : code[stop]? = some { op := .ret }) : Sound code start := by
  have reach {spot : Spot} (reached : Reachable code start spot) :=
    depth_of_reachable typed le empty found reached
  have inside : stop < code.size := (Array.getElem?_eq_some_iff.mp found).1
  exact {
    inside := by
      intro spot reached
      have := (reach reached).2.1
      omega
    enough := by
      intro spot i reached hi
      obtain ⟨above, below, depth⟩ := reach reached
      rw [Instruction.effect_eq, depth]
      by_cases hstop : spot.offset = stop
      · rw [hstop, found] at hi
        cases hi
        simp [hstop, single, Instruction.takes]
      · obtain ⟨j, hj, agrees⟩ := typed spot.offset above (by omega)
        obtain rfl : j = i := by simpa [hj] using hi
        exact agrees.enough.length_le
    balanced := by
      intro spot i reached hi returns
      obtain ⟨above, below, depth⟩ := reach reached
      by_cases hstop : spot.offset = stop
      · rw [depth, hstop, single]
        rfl
      · obtain ⟨j, hj, agrees⟩ := typed spot.offset above (by omega)
        obtain rfl : j = i := by simpa [hj] using hi
        exact absurd returns agrees.stays
    agreed := by
      intro a b ha hb same
      rw [(reach ha).2.2, (reach hb).2.2, same] }

end StackCheck

end StackScript
