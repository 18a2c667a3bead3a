import StackScript.Proofs.Compile.Cut
import StackScript.Proofs.Unit.Limits

/-!
# Units that are cut off

A tree is compiled twice into the same unit, with a limit on the instructions and without one. If
what comes out fits under the limit, both do the same; else the unit is filled up to the limit with
the first instructions of the whole, in which jumps beyond the limit are open. The loops of the tree
must be code throughout: a loop that is taken back may reach the limit with instructions that are
not there in the end.
-/

namespace StackScript

open Compile

mutual

/-- No loop that is compiled needs the tree walker. -/
def Statement.loopsInline : Statement → Bool
  | .block body => blockLoopsInline body
  | .ifElse _ consequent alternate => consequent.loopsInline && alternateLoopsInline alternate
  | .whileLoop _ body | .doWhile body _ | .forLoop _ _ _ body => !body.needsWalker
  | _ => true

/-- No loop in the statements needs the tree walker. -/
def blockLoopsInline : List Statement → Bool
  | [] => true
  | s :: rest => s.loopsInline && blockLoopsInline rest

/-- No loop in the alternate needs the tree walker. -/
def alternateLoopsInline : Option Statement → Bool
  | none => true
  | some s => s.loopsInline

end

/-- No loop that is compiled needs the tree walker. -/
def Source.loopsInline : Source → Bool
  | .expression _ => true
  | .statements body asBlock => blockLoopsInline (selected body asBlock)

mutual

/-- A statement that does not need the tree walker has no loop that does. -/
theorem Statement.loopsInline_of_needsWalker : (s : Statement) → s.needsWalker = false →
    s.loopsInline = true
  | .block body, h => block_loopsInline body h
  | .ifElse _ consequent alternate, h => by
    rw [Statement.needsWalker, Bool.or_eq_false_iff] at h
    rw [Statement.loopsInline, Bool.and_eq_true]
    exact ⟨consequent.loopsInline_of_needsWalker h.1, alternate_loopsInline alternate h.2⟩
  | .whileLoop _ body, h | .doWhile body _, h | .forLoop _ _ _ body, h => by
    rw [Statement.needsWalker] at h
    rw [Statement.loopsInline, h]
    rfl
  | .expression _, _ | .declaration _, _ | .empty, _ | .forIn .., _ | .ret .., _ | .breakTo .., _
  | .continueTo .., _
  | .throw .., _ | .tryCatch .., _ | .switch .., _ | .withObject .., _ | .labeled .., _
  | .function .., _ => rfl

theorem block_loopsInline : (body : List Statement) → blockNeedsWalker body = false →
    blockLoopsInline body = true
  | [], _ => rfl
  | s :: rest, h => by
    rw [blockNeedsWalker, Bool.or_eq_false_iff] at h
    rw [blockLoopsInline, Bool.and_eq_true]
    exact ⟨s.loopsInline_of_needsWalker h.1, block_loopsInline rest h.2⟩

theorem alternate_loopsInline : (alternate : Option Statement) →
    alternateNeedsWalker alternate = false →
    alternateLoopsInline alternate = true
  | none, _ => rfl
  | some s, h => s.loopsInline_of_needsWalker h

end

/-! ## Statements -/

theorem Expression.cuts_compile (e : Expression) : Cuts e.compile :=
  e.lower_related cuts_cyclic.toStraight

theorem cuts_declarators (list : List (Declarator Expression)) : Cuts (compileDeclarators list) :=
  declarators_related cuts_cyclic.toStraight list

theorem cuts_for (init : Option (LoopHead Expression)) (test update : Option Expression)
    {body : Statement}
    (h : Cuts body.compile) : Cuts (lowerFor .direct init test update body.compile) :=
  for_related cuts_cyclic body.compile init test update h

/-- Code that is added as a segment is not left to the tree walker. -/
theorem Compile.Emits.ne_needsWalker {step : Compile Unit} {s : Segment} {d : Draft}
    (h : Emits step s d) (e : Draft) :
    step d ≠ .error .needsWalker e := by
  intro stopped
  have met := h fun _ => False
  rwa [Meets, stopped] at met

mutual

/-- A statement is cut off at the limit, if no loop in it is taken back. -/
theorem Statement.cuts_compile : (s : Statement) → s.loopsInline = true → Cuts s.compile
  | .block body, h => block_cuts body h
  | .expression value, _ => value.cuts_compile
  | .declaration declarators, _ => cuts_declarators declarators
  | .ifElse test consequent alternate, h => by
    rw [Statement.loopsInline, Bool.and_eq_true] at h
    rw [Statement.compile, Statement.lower]
    exact test.cuts_compile.seq
      (.branch rfl (consequent.cuts_compile h.1) (alternate_cuts alternate h.2))
  | .whileLoop test body, h => by
    rw [Statement.loopsInline, Bool.not_eq_true'] at h
    have inner := body.cuts_compile (body.loopsInline_of_needsWalker h)
    have rounds := Cuts.cycle test.cuts_compile ((cuts_emit (i := { op := .pop }) rfl).seq inner)
    simp only [bind_assoc] at rounds
    rw [Statement.compile, Statement.lower]
    refine .loop _ ((cuts_emit rfl).seq rounds) fun d e _ => ?_
    exact (emits_while fun f _ => body.emits_compile f (.inr h)).ne_needsWalker e
  | .doWhile body test, h => by
    rw [Statement.loopsInline, Bool.not_eq_true'] at h
    have inner := body.cuts_compile (body.loopsInline_of_needsWalker h)
    have rounds := Cuts.cycle (inner.seq test.cuts_compile) (cuts_emit (i := { op := .pop }) rfl)
    simp only [bind_assoc] at rounds
    rw [Statement.compile, Statement.lower]
    refine .loop _ rounds fun d e _ => ?_
    exact (emits_doWhile fun f _ => body.emits_compile f (.inr h)).ne_needsWalker e
  | .forLoop init test update body, h => by
    rw [Statement.loopsInline, Bool.not_eq_true'] at h
    have inner := body.cuts_compile (body.loopsInline_of_needsWalker h)
    rw [Statement.compile, Statement.lower]
    refine .loop _ (cuts_for init test update inner) fun d e _ => ?_
    exact (emits_for init test update fun f _ => body.emits_compile f (.inr h)).ne_needsWalker e
  | .empty, _ => cuts_emit rfl
  | .forIn .., _ | .ret .., _ | .breakTo .., _ | .continueTo .., _ | .throw .., _ | .tryCatch .., _
  | .switch .., _
  | .withObject .., _ | .labeled .., _ | .function .., _ => cuts_escape _

theorem block_cuts : (body : List Statement) → blockLoopsInline body = true →
    Cuts (compileBlock body)
  | [], _ => cuts_emit rfl
  | [s], h => by
    rw [blockLoopsInline, Bool.and_eq_true] at h
    exact s.cuts_compile h.1
  | s :: next :: rest, h => by
    rw [blockLoopsInline, Bool.and_eq_true] at h
    exact (s.cuts_compile h.1).seq ((cuts_emit rfl).seq (block_cuts (next :: rest) h.2))

theorem alternate_cuts : (alternate : Option Statement) → alternateLoopsInline alternate = true →
    Cuts (compileAlternate alternate)
  | none, _ => cuts_emit rfl
  | some s, h => s.cuts_compile h

end

theorem Source.cuts_compile (source : Source) (h : source.loopsInline = true) :
    Cuts source.compile :=
  match source, h with
  | .expression tree, _ => tree.cuts_compile
  | .statements [] _, _ => cuts_emit rfl
  | .statements [s] true, h | .statements [s] false, h => block_cuts [s] h
  | .statements (first :: next :: rest) true, h => block_cuts (first :: next :: rest) h
  | .statements (first :: _ :: _) false, h => (cuts_report _).seq (block_cuts [first] h)

/-- The code of an entry point, with the return behind it. -/
theorem Source.cuts_entry (source : Source) (h : source.loopsInline = true) :
    Cuts (do source.compile; emitOp .ret) :=
  (source.cuts_compile h).seq (cuts_emit rfl)

/-! ## Units -/

namespace CodeUnit

/-- The unit with another limit on the instructions, or without one. -/
def withLimit (u : CodeUnit) (limit : Option Nat) : CodeUnit :=
  { u with
    settings := { u.settings with maxInstructions := limit }
    code := u.code.map fun code => { code with limit := limit } }

variable {u : CodeUnit} {source : Source} {arena : Arena} {limit : Nat}

theorem instructions_withLimit (u : CodeUnit) (limit : Option Nat) :
    (u.withLimit limit).instructions = u.instructions := by
  cases h : u.code with
  | none => simp [withLimit, instructions, h]
  | some code => simp [withLimit, instructions, h]

/-- New code is the same under a limit, but for the limit. -/
theorem ensureCode_withLimit {code : Code} (h : (u.withLimit none).ensureCode = .ok code) :
    (u.withLimit (some limit)).ensureCode = .ok { code with limit := some limit } := by
  cases hc : u.code with
  | some c =>
    simp only [ensureCode, withLimit, hc, Option.map_some] at h ⊢
    cases h
    rfl
  | none =>
    simp only [ensureCode, withLimit, hc, Option.map_none] at h ⊢
    obtain ⟨room, rfl⟩ := Code.create_eq_ok.mp h
    exact Code.create_eq_ok.mpr ⟨room, rfl⟩

/-- An entry point is compiled on code with a limit, and on the same code without one. -/
theorem compileOn_cut (h : source.loopsInline = true) {v w : CodeUnit}
    (mode : v.settings.allowEscape = w.settings.allowEscape) {code : Code} {names : NamePool}
    {start : Nat}
    (done : (v.compileOn source code names arena).result = .ok start)
    (short : code.length ≤ limit) :
    let whole := (v.compileOn source code names arena).unit.instructions.toList
    let cut := w.compileOn source { code with limit := some limit } names arena
    (whole.length ≤ limit → cut.result = .ok start ∧ cut.unit.instructions.toList = whole) ∧
      (limit < whole.length → cut.result = .error (.outOfMemory .instructions) ∧
        cut.unit.instructions.toList = cutAt code.length limit whole) := by
  obtain ⟨d, hd⟩ : ∃ d : Draft, d = { code, names, arena, escapes := v.settings.allowEscape } :=
    ⟨_, rfl⟩
  have start_eq : code.length = d.written.length := by
    rw [← Draft.length_code, hd]
  have under : ({ code := { code with limit := some limit }, names, arena, escapes :=
      w.settings.allowEscape } : Draft) =
      d.under limit := by
    rw [hd, ← mode]
    rfl
  have tracks : Tracks code.length limit (do source.compile; emitOp .ret) d :=
    (source.cuts_entry h).tracks (start_eq ▸ ready_self d.written)
  simp only [compileOn, ← hd] at done ⊢
  simp only [under]
  cases hstep : (do source.compile; emitOp .ret : Compile Unit) d with
  | ok _ e =>
    obtain ⟨-, -, within, across, -⟩ := tracks () e hstep
    simp only [hstep] at done ⊢
    refine ⟨?_, ?_⟩
    · intro below
      simp only [within below]
      exact ⟨done, rfl⟩
    · intro above
      obtain ⟨f, failed, left⟩ := across (start_eq ▸ short) above
      simp only [failed]
      exact ⟨trivial, left⟩
  | error halt e =>
    simp only [hstep] at done
    cases halt <;> cases done

/-- What is left in the unit when the limit is reached. -/
theorem compile_cut (h : source.loopsInline = true) {start : Nat}
    (done : ((u.withLimit none).compile source arena).result = .ok start)
    (short : u.length ≤ limit) :
    let whole := ((u.withLimit none).compile source arena).unit.instructions.toList
    let cut := (u.withLimit (some limit)).compile source arena
    (whole.length ≤ limit → cut.result = .ok start ∧ cut.unit.instructions.toList = whole) ∧
      (limit < whole.length → cut.result = .error (.outOfMemory .instructions) ∧
        cut.unit.instructions.toList = cutAt u.length limit whole) := by
  have room (region : Region) : ((u.withLimit none).compile source arena).result ≠
      .error (.outOfMemory region) := by
    simp [done]
  obtain ⟨code, names, hcode, hnames⟩ := exists_ensured room
  have same : code.length = u.length := by
    rw [Code.length, ensureCode_eq_ok hcode, instructions_withLimit, length]
  have hnames' : (u.withLimit (some limit)).ensureNames = .ok names := hnames
  rw [compile_of_ensured hcode hnames] at done ⊢
  rw [compile_of_ensured (ensureCode_withLimit hcode) hnames', ← same]
  rw [← same] at short
  apply compileOn_cut h _ done short
  rfl

/-- Compiling into a unit with a limit on the instructions, compared with compiling into the same
    unit without one. The call that is limited succeeds if and only if the whole fits under the
    limit, and then the code is the same. If it does not fit, memory for instructions runs out, the
    code is filled up to the limit, and every instruction that was added is the one of the whole,
    but for a jump that leads beyond the limit: that one is open. -/
theorem compile_under_limit (u : CodeUnit) (source : Source) (arena : Arena) (limit start : Nat)
    (inline : source.loopsInline = true) (short : u.length ≤ limit)
    (done : ((u.withLimit none).compile source arena).result = .ok start) :
    let whole := (u.withLimit none).compile source arena
    let cut := (u.withLimit (some limit)).compile source arena
    ∃ added : List Instruction, start = u.length ∧
      whole.unit.instructions.toList = u.instructions.toList ++ added ∧
      (cut.result = .ok u.length ↔ u.length + added.length ≤ limit) ∧
      (u.length + added.length ≤ limit →
        cut.unit.instructions.toList = u.instructions.toList ++ added) ∧
      (limit < u.length + added.length → cut.result = .error (.outOfMemory .instructions) ∧
        cut.unit.length = limit ∧
        (∀ k < u.length, cut.unit.instructions[k]? = u.instructions[k]?) ∧
        ∀ k, u.length ≤ k → k < limit → ∃ i, added[k - u.length]? = some i ∧
          ((∀ t, i.target? = some t → t ≤ limit) → cut.unit.instructions[k]? = some i) ∧
          ((∃ t, i.target? = some t ∧ limit < t) →
            cut.unit.instructions[k]? = some { i with operand := some .pending })) := by
  intro whole cut
  obtain ⟨fits, full⟩ := compile_cut inline done short
  have adds := adds_of_compile_eq_ok done
  have code : whole.unit.instructions.toList =
      u.instructions.toList ++ (u.withLimit none).entry source := by
    rw [← instructions_withLimit u none]
    exact adds.code
  have start_eq : start = u.length := by
    rw [adds.start_eq, length, instructions_withLimit, length]
  refine ⟨(u.withLimit none).entry source, start_eq, code, ?_⟩
  generalize (u.withLimit none).entry source = added at code ⊢
  have size : whole.unit.instructions.toList.length = u.length + added.length := by
    rw [code, List.length_append, Array.length_toList, length]
  rw [size, start_eq] at fits
  rw [size] at full
  refine ⟨⟨?_, fun below => (fits below).1⟩, fun below => (fits below).2.trans code, ?_⟩
  · intro succeeded
    by_contra above
    have failed := (full (Nat.not_le.mp above)).1
    exact absurd (succeeded.symm.trans failed) (by simp)
  · intro above
    obtain ⟨failed, left⟩ := full above
    have left_at (k : Nat) : cut.unit.instructions[k]? =
        if k < limit then (u.instructions.toList ++ added)[k]?.map
          fun i => if k < u.length then i else i.heldAt limit else none := by
      rw [← Array.getElem?_toList, left, getElem?_cutAt]
      exact code ▸ rfl
    refine ⟨failed, ?_, ?_, ?_⟩
    · rw [length, ← Array.length_toList, left, length_cutAt]
      exact Nat.min_eq_left (Nat.le_trans (Nat.le_of_lt above) (Nat.le_of_eq size.symm))
    · intro k before
      have inside : k < u.instructions.toList.length := by simpa [length] using before
      rw [left_at, if_pos (by omega), List.getElem?_append_left inside, Array.getElem?_toList]
      simp [before]
    · intro k behind below
      have inside : k - u.length < added.length := by omega
      have found : (u.instructions.toList ++ added)[k]? = some added[k - u.length] := by
        rw [List.getElem?_append_right (by simpa [length] using behind),
          Array.length_toList, ← length]
        exact List.getElem?_eq_getElem inside
      have held : cut.unit.instructions[k]? = some (added[k - u.length].heldAt limit) := by
        rw [left_at, if_pos below, found, Option.map_some, if_neg (Nat.not_lt.mpr behind)]
      refine ⟨added[k - u.length], List.getElem?_eq_getElem inside, ?_, ?_⟩
      · intro near
        rw [held, Instruction.heldAt_of_target?_le near]
      · rintro ⟨t, target, beyond⟩
        rw [held, Instruction.heldAt_of_lt_target? target beyond]

/-- A loop with a choice inside of it. -/
def choiceInLoop : Source :=
  .statements [.whileLoop (.name "a") (.expression (.logical .and (.name "b") (.name "c")))] true

/-- The limit falls on the target of the inner jump, which is patched, while the jump out of the
    loop is open. -/
theorem compile_under_limit_choiceInLoop :
    let cut := (({} : CodeUnit).withLimit (some 7)).compile choiceInLoop {}
    cut.result = .error (.outOfMemory .instructions) ∧ cut.unit.length = 7 ∧
      cut.unit.instructions[2]? = some { op := .jumpIfFalse, operand := some .pending } ∧
      cut.unit.instructions[5]? = some (.jumpTo .jumpIfFalseOrPop 7) := by
  have done : ((({} : CodeUnit).withLimit none).compile choiceInLoop {}).result = .ok 0 := by
    decide +kernel
  obtain ⟨added, -, code, -, -, full⟩ :=
    compile_under_limit {} choiceInLoop {} 7 0 rfl (Nat.zero_le 7) done
  obtain rfl : added = (({} : CodeUnit).withLimit none).entry choiceInLoop :=
    code.symm.trans (adds_of_compile_eq_ok done).code
  have outer : ((({} : CodeUnit).withLimit none).entry choiceInLoop)[2]? =
      some (.jumpTo .jumpIfFalse 8) := rfl
  have inner : ((({} : CodeUnit).withLimit none).entry choiceInLoop)[5]? =
      some (.jumpTo .jumpIfFalseOrPop 7) := rfl
  obtain ⟨failed, size, -, held⟩ := full (by decide)
  refine ⟨failed, size, ?_, ?_⟩
  · obtain ⟨i, found, -, unpatched⟩ := held 2 (by decide) (by decide)
    cases outer.symm.trans found
    exact unpatched ⟨8, rfl, by decide⟩
  · obtain ⟨i, found, known, -⟩ := held 5 (by decide) (by decide)
    cases inner.symm.trans found
    exact known (by rintro t ⟨⟩; decide)

end CodeUnit

end StackScript
