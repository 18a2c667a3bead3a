import StackScript.Proofs.Segment.Operands

/-!
# What is left to the tree walker

Which statements the code of a tree hands over to the tree walker, and in which order, is told by
the tree alone: blocks and choices are looked into, and a loop is handed over as a whole if its body
needs the tree walker. All other loops have code of their own, from which nothing is handed over.
-/

namespace StackScript

/-- The instruction hands over to the tree walker. -/
def Instruction.isEscape (i : Instruction) : Bool :=
  i.op == .escape

/-- What a loop repeats. -/
def Statement.body? : Statement → Option Statement
  | .whileLoop _ body | .doWhile body _ | .forLoop _ _ _ body => some body
  | _ => none

mutual

/-- The statements that are left to the tree walker, in the order in which they are met. -/
def Statement.handedOver : Statement → List Statement
  | .expression _ | .declaration _ | .empty => []
  | .block body => blockHandedOver body
  | .ifElse _ consequent alternate => consequent.handedOver ++ alternateHandedOver alternate
  | .whileLoop test body => if body.needsWalker then [.whileLoop test body] else []
  | .doWhile body test => if body.needsWalker then [.doWhile body test] else []
  | .forLoop init test update body =>
    if body.needsWalker then [.forLoop init test update body] else []
  | s => [s]

/-- What each of the statements hands over, in their order. -/
def blockHandedOver : List Statement → List Statement
  | [] => []
  | s :: rest => s.handedOver ++ blockHandedOver rest

/-- What the alternate hands over, if there is one. -/
def alternateHandedOver : Option Statement → List Statement
  | none => []
  | some s => s.handedOver

end

/-- A statement without code of its own hands over itself. -/
theorem Statement.handedOver_of_isForeign {s : Statement} (h : s.isForeign = true) :
    s.handedOver = [s] := by
  cases s <;> simp_all [Statement.isForeign, Statement.handedOver]

mutual

/-- Something is handed over if and only if the tree walker is needed. -/
theorem Statement.handedOver_eq_nil_iff : (s : Statement) →
    (s.handedOver = [] ↔ s.needsWalker = false)
  | .block body => by
    rw [Statement.handedOver, Statement.needsWalker]
    exact block_handedOver_eq_nil_iff body
  | .ifElse _ consequent alternate => by
    rw [Statement.handedOver, Statement.needsWalker, List.append_eq_nil_iff, Bool.or_eq_false_iff,
      consequent.handedOver_eq_nil_iff, alternate_handedOver_eq_nil_iff alternate]
  | .whileLoop _ body | .doWhile body _ | .forLoop _ _ _ body => by
    rw [Statement.handedOver, Statement.needsWalker]
    cases body.needsWalker <;> simp
  | .expression _ | .declaration _ | .empty => by
    simp [Statement.handedOver, Statement.needsWalker]
  | .forIn .. | .ret .. | .breakTo .. | .continueTo .. | .throw .. | .tryCatch .. | .switch ..
  | .withObject .. | .labeled .. | .function .. => by
    simp [Statement.handedOver, Statement.needsWalker]

theorem block_handedOver_eq_nil_iff : (body : List Statement) →
    (blockHandedOver body = [] ↔ blockNeedsWalker body = false)
  | [] => by simp [blockHandedOver, blockNeedsWalker]
  | s :: rest => by
    rw [blockHandedOver, blockNeedsWalker, List.append_eq_nil_iff, Bool.or_eq_false_iff,
      s.handedOver_eq_nil_iff, block_handedOver_eq_nil_iff rest]

theorem alternate_handedOver_eq_nil_iff : (alternate : Option Statement) →
    (alternateHandedOver alternate = [] ↔ alternateNeedsWalker alternate = false)
  | none => by simp [alternateHandedOver, alternateNeedsWalker]
  | some s => by
    rw [alternateHandedOver, alternateNeedsWalker]
    exact s.handedOver_eq_nil_iff

end

/-! ## The escapes of a segment -/

/-- To hand over is no plain instruction. -/
theorem Instruction.IsPlain.isEscape_eq_false {i : Instruction} (h : i.IsPlain) :
    i.isEscape = false :=
  beq_eq_false_iff_ne.mpr h.noEscape

namespace Segment

/-- The segment leaves these statements to the tree walker, in this order. -/
def HandsOver (s : Segment) (trees : List Statement) : Prop :=
  ∀ o n, (s.place o n).filter Instruction.isEscape = trees.map .handOver

variable {a b : Segment} {xs ys : List Statement}

/-- From plain code nothing is handed over. -/
theorem Yields.handsOver (h : a.Yields Instruction.IsPlain) : a.HandsOver [] := by
  intro o n
  rw [List.map_nil, List.filter_eq_nil_iff]
  exact fun i hi => Bool.eq_false_iff.mp (h o n i hi).isEscape_eq_false

/-- What two segments hand over, one after the other. -/
theorem HandsOver.seq (h₁ : a.HandsOver xs) (h₂ : b.HandsOver ys) :
    (a.seq b).HandsOver (xs ++ ys) := by
  intro o n
  rw [place, List.filter_append, h₁, h₂, List.map_append]

/-- Both sides of a choice are there, and hand over in their order. -/
theorem HandsOver.branch (keeps : Bool) (h₁ : a.HandsOver xs) (h₂ : b.HandsOver ys) :
    (branch keeps a b).HandsOver (xs ++ ys) := by
  intro o n
  have jump {op : Op} (jumps : op.isJump = true) (t : Nat) :
      ¬(Instruction.jumpTo op t).isEscape = true :=
    Bool.eq_false_iff.mp (Instruction.isPlain_jumpTo jumps t).isEscape_eq_false
  rw [place, List.filter_append, List.filter_cons_of_neg (jump (isJump_branchOp keeps) _),
    List.filter_cons_of_neg (jump rfl _), h₁, h₂, List.map_append]

end Segment

open Segment Instruction

/-- The code of a statement that does not need the tree walker. -/
theorem Statement.handsOver_of_needsWalker_eq_false {s : Statement} (h : s.needsWalker = false) :
    s.segment.HandsOver [] :=
  (s.yields (fun _ plain => plain) (.inr h)).handsOver

/-- A loop needs the tree walker if its body does. -/
theorem Statement.needsWalker_of_body? {s body : Statement} (loops : s.body? = some body) :
    s.needsWalker = body.needsWalker := by
  cases s <;> cases loops <;> rw [Statement.needsWalker]

/-- A loop that is handed over leaves the names behind that were added until then. -/
theorem Statement.exists_segment_eq_escape {s : Statement} {body : Statement}
    (loops : s.body? = some body) (needs : s.needsWalker = true) :
    ∃ texts, s.segment = (Segment.unused texts).seq (escape s) := by
  rw [needsWalker_of_body? loops] at needs
  cases s <;> cases loops
  all_goals
    rw [Statement.segment, if_pos needs]
    exact ⟨_, rfl⟩

/-- A loop is handed over whole or not at all. -/
theorem Statement.handsOver_of_body? {s body : Statement} (loops : s.body? = some body) :
    s.segment.HandsOver s.handedOver := by
  cases needs : s.needsWalker with
  | false =>
    rw [s.handedOver_eq_nil_iff.mpr needs]
    exact handsOver_of_needsWalker_eq_false needs
  | true =>
    obtain ⟨texts, heq⟩ := exists_segment_eq_escape loops needs
    have whole : s.handedOver = [s] := by
      rw [needsWalker_of_body? loops] at needs
      cases s <;> cases loops <;> rw [Statement.handedOver, if_pos needs]
    rw [heq, whole]
    exact fun _ _ => rfl

theorem Statement.handsOver_of_isForeign {s : Statement} (foreign : s.isForeign = true) :
    s.segment.HandsOver s.handedOver := by
  rw [segment_of_isForeign foreign, handedOver_of_isForeign foreign]
  exact fun _ _ => rfl

mutual

/-- The escapes in the code of a statement are what the statement hands over, in the same order. -/
theorem Statement.handsOver : (s : Statement) → s.segment.HandsOver s.handedOver
  | .block body => by
    rw [Statement.segment, Statement.handedOver]
    exact block_handsOver body
  | .ifElse test consequent alternate => by
    rw [Statement.segment, Statement.handedOver]
    exact test.yields.handsOver.seq
      (consequent.handsOver.branch false (alternate_handsOver alternate))
  | .expression _ | .declaration _ | .empty => by
    rw [Statement.handedOver]
    exact Statement.handsOver_of_needsWalker_eq_false (by rw [Statement.needsWalker])
  | .whileLoop .. | .doWhile .. | .forLoop .. => Statement.handsOver_of_body? rfl
  | .forIn .. | .ret .. | .breakTo .. | .continueTo .. | .throw .. | .tryCatch .. | .switch ..
  | .withObject .. | .labeled .. | .function .. => Statement.handsOver_of_isForeign rfl

/-- What each of the statements hands over, in their order. -/
theorem block_handsOver : (body : List Statement) →
    (blockSegment body).HandsOver (blockHandedOver body)
  | [] => by
    rw [blockSegment, blockHandedOver]
    exact (yields_op rfl).handsOver
  | [s] => by
    rw [blockSegment, blockHandedOver, blockHandedOver, List.append_nil]
    exact s.handsOver
  | s :: next :: rest => by
    rw [blockSegment, blockHandedOver]
    exact s.handsOver.seq ((yields_op rfl).handsOver.seq (block_handsOver (next :: rest)))

theorem alternate_handsOver : (alternate : Option Statement) →
    (alternateSegment alternate).HandsOver (alternateHandedOver alternate)
  | some s => by
    rw [alternateSegment, alternateHandedOver]
    exact s.handsOver
  | none => by
    rw [alternateSegment, alternateHandedOver]
    exact (yields_op rfl).handsOver

end

/-! ## Parts of a segment -/

namespace Segment

/-- The first segment is a part of the second. -/
inductive Part (a : Segment) : Segment → Prop
  | refl : Part a a
  | first {s t : Segment} : Part a s → Part a (.seq s t)
  | second {s t : Segment} : Part a t → Part a (.seq s t)
  | skipped {operator : LogicalOperator} {s : Segment} : Part a s → Part a (.skip operator s)
  | consequent {keeps : Bool} {s t : Segment} : Part a s → Part a (.branch keeps s t)
  | alternate {keeps : Bool} {s t : Segment} : Part a t → Part a (.branch keeps s t)
  | test {s t : Segment} : Part a s → Part a (.cycle s t)
  | body {s t : Segment} : Part a t → Part a (.cycle s t)
  | round {s : Segment} : Part a s → Part a (.forever s)

/-- A part of a part. -/
theorem Part.trans {a b c : Segment} (first : a.Part b) (second : b.Part c) : a.Part c := by
  induction second with
  | refl => exact first
  | first _ ih => exact .first ih
  | second _ ih => exact .second ih
  | skipped _ ih => exact .skipped ih
  | consequent _ ih => exact .consequent ih
  | alternate _ ih => exact .alternate ih
  | test _ ih => exact .test ih
  | body _ ih => exact .body ih
  | round _ ih => exact .round ih

/-- The code of a part stands in the code of the whole, and its names are among those of the
    whole. -/
theorem Part.stands {a s : Segment} (part : a.Part s) {code : Array Instruction} {o n : Nat}
    (h : Stands code o (s.place o n)) :
    ∃ o', o ≤ o' ∧ o' + a.size ≤ o + s.size ∧ a.Placed code o' n (n + s.names.length) := by
  induction part generalizing o n with
  | refl => exact ⟨o, Nat.le_refl _, Nat.le_refl _, placed_self h⟩
  | first _ ih =>
    obtain ⟨o', above, below, placed⟩ := ih (stands_seq.mp h).1
    rw [size, names, List.length_append]
    exact ⟨o', above, by omega, placed.mono (by omega) (by omega)⟩
  | second _ ih =>
    obtain ⟨o', above, below, placed⟩ := ih (stands_seq.mp h).2
    rw [size, names, List.length_append]
    exact ⟨o', by omega, by omega, placed.mono (by omega) (by omega)⟩
  | skipped _ ih =>
    obtain ⟨o', above, below, placed⟩ := ih (stands_skip.mp h).2
    rw [size, names]
    exact ⟨o', by omega, by omega, placed⟩
  | consequent _ ih =>
    obtain ⟨o', above, below, placed⟩ := ih (stands_branch.mp h).2.1
    rw [size, names, List.length_append]
    exact ⟨o', by omega, by omega, placed.mono (by omega) (by omega)⟩
  | alternate _ ih =>
    obtain ⟨o', above, below, placed⟩ := ih (stands_branch.mp h).2.2.2
    rw [size, names, List.length_append]
    exact ⟨o', by omega, by omega, placed.mono (by omega) (by omega)⟩
  | test _ ih =>
    obtain ⟨o', above, below, placed⟩ := ih (stands_cycle.mp h).1
    rw [size, names, List.length_append]
    exact ⟨o', above, by omega, placed.mono (by omega) (by omega)⟩
  | body _ ih =>
    obtain ⟨o', above, below, placed⟩ := ih (stands_cycle.mp h).2.2.1
    rw [size, names, List.length_append]
    exact ⟨o', by omega, by omega, placed.mono (by omega) (by omega)⟩
  | round _ ih =>
    obtain ⟨o', above, below, placed⟩ := ih (stands_forever.mp h).1
    rw [size, names]
    exact ⟨o', above, by omega, placed⟩

end Segment

/-- The first statement stands in the second, and not inside of a statement that is handed over. -/
inductive Statement.Within (s : Statement) : Statement → Prop
  | refl : Within s s
  | block {member : Statement} {body : List Statement} :
      member ∈ body → Within s member → Within s (.block body)
  | consequent {test : Expression} {consequent : Statement} {alternate : Option Statement} :
      Within s consequent → Within s (.ifElse test consequent alternate)
  | alternate {test : Expression} {consequent alternate : Statement} :
      Within s alternate → Within s (.ifElse test consequent (some alternate))
  | loop {whole body : Statement} :
      whole.body? = some body → body.needsWalker = false → Within s body → Within s whole

/-- Each statement of a block is a part of its code. -/
theorem part_block {body : List Statement} {member : Statement} (h : member ∈ body) :
    member.segment.Part (blockSegment body) := by
  induction body with
  | nil => cases h
  | cons s rest ih =>
    cases rest with
    | nil =>
      obtain rfl := List.mem_singleton.mp h
      rw [blockSegment]
      exact .refl
    | cons next rest =>
      rw [blockSegment]
      rcases List.mem_cons.mp h with rfl | later
      · exact .first .refl
      · exact .second (.second (ih later))

/-- The body of a loop that has code of its own. -/
theorem part_body {whole body : Statement} (loops : whole.body? = some body)
    (inline : body.needsWalker = false) : body.segment.Part whole.segment := by
  have keeps : ¬body.needsWalker = true := Bool.eq_false_iff.mp inline
  cases whole <;> cases loops <;> rw [Statement.segment, if_neg keeps]
  case whileLoop => exact .second (.body (.second .refl))
  case doWhile => exact .test (.first .refl)
  case forLoop init test update =>
    cases test with
    | some test => exact .second (.second (.body (.second (.first .refl))))
    | none => exact .second (.second (.round (.second (.first .refl))))

/-- A statement that is not inside of one that is handed over is a part of the code. -/
theorem Statement.Within.part {s whole : Statement} (within : s.Within whole) :
    s.segment.Part whole.segment := by
  induction within with
  | refl => exact .refl
  | block mem _ ih =>
    rw [Statement.segment]
    exact ih.trans (part_block mem)
  | consequent _ ih =>
    rw [Statement.segment]
    exact .second (.consequent ih)
  | alternate _ ih =>
    rw [Statement.segment, alternateSegment]
    exact .second (.alternate ih)
  | loop loops inline _ ih => exact ih.trans (part_body loops inline)

/-! ## Loops with code of their own -/

/-- The code ends with a jump back to one of its own instructions. -/
def EndsBack (o : Nat) (code : List Instruction) : Prop :=
  ∃ t, o ≤ t ∧ t < o + code.length ∧ code.getLast? = some (.jumpTo .jump t)

theorem endsBack_append (o : Nat) (round : List Instruction) :
    EndsBack o (round ++ [.jumpTo .jump o]) :=
  ⟨o, Nat.le_refl o, by simp, by simp⟩

namespace Segment

theorem endsBack_cycle (test body : Segment) (o n : Nat) :
    EndsBack o ((cycle test body).place o n) :=
  endsBack_append o _

theorem endsBack_forever (body : Segment) (o n : Nat) : EndsBack o ((forever body).place o n) :=
  endsBack_append o _

/-- What stands before a loop does not matter. -/
theorem endsBack_seq {a b : Segment} {o n : Nat}
    (h : EndsBack (o + a.size) (b.place (o + a.size) (n + a.names.length))) :
    EndsBack o ((a.seq b).place o n) := by
  obtain ⟨t, above, below, last⟩ := h
  rw [length_place] at below
  refine ⟨t, by omega, ?_, ?_⟩
  · rw [length_place, size]
    omega
  · rw [place, List.getLast?_append, last, Option.some_or]

end Segment

/-- The code of each loop ends with a jump back into it. -/
theorem Statement.endsBack {s body : Statement} (loops : s.body? = some body)
    (inline : body.needsWalker = false) (o n : Nat) : EndsBack o (s.segment.place o n) := by
  have keeps : ¬body.needsWalker = true := Bool.eq_false_iff.mp inline
  cases s <;> cases loops <;> rw [Statement.segment, if_neg keeps]
  case whileLoop => exact endsBack_seq (endsBack_cycle ..)
  case doWhile => exact endsBack_cycle ..
  case forLoop init test update =>
    refine endsBack_seq (endsBack_seq ?_)
    cases test with
    | some test => exact endsBack_cycle ..
    | none => exact endsBack_forever ..

end StackScript
