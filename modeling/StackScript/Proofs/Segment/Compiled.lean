import StackScript.Compile.CodeUnit
import StackScript.Proofs.Segment.Emission

/-!
# Compiled trees

Compiling a tree adds the segment of the tree. Inside of a loop, where no statement may be left to
the tree walker, compiling a statement that needs it stops, and leaves the names that were added so
far.
-/

namespace StackScript

open Compile Segment

/-- A literal compiles to its segment. The texts in it are copied to the arena. -/
theorem Literal.emits_compile (value : Literal) (d : Draft) :
    Emits value.compile value.segment d := by
  cases value with
  | number value => exact emits_emit _
  | string text =>
    intro bail
    apply (meets_copy text).bind
    rintro copied e ⟨rfl, same⟩
    apply (meets_emit _).mono
    · exact fun _ f grown => same.trans grown
    · exact fun _ h => h
  | regExp pattern flags =>
    intro bail
    apply (meets_copy pattern).bind
    rintro copied e ⟨rfl, same⟩
    apply (meets_copy flags).bind
    rintro copied' f ⟨rfl, same'⟩
    apply (meets_emit _).mono
    · exact fun _ g grown => same.trans (same'.trans grown)
    · exact fun _ h => h
  | boolean value => cases value <;> exact emits_emitOp rfl
  | null => exact emits_emitOp rfl
  | undefined => exact emits_emitOp rfl

mutual

/-- Every expression compiles to its segment, if memory lasts. -/
theorem Expression.emits_compile : (e : Expression) → ∀ d, Emits e.compile e.segment d
  | .literal value, d => by
    rw [Expression.compile, Expression.lower, Expression.segment]
    exact value.emits_compile d
  | .name text, d => by
    rw [Expression.compile, Expression.lower, Expression.segment]
    exact emits_named rfl
  | .thisValue, d => by
    rw [Expression.compile, Expression.lower, Expression.segment]
    exact emits_emitOp rfl
  | .function name params body, d => by
    rw [Expression.compile, Expression.lower, Expression.segment]
    exact emits_emit _
  | .array elements, d => by
    rw [Expression.compile, Expression.lower, Expression.segment]
    exact (elements_emit elements d).seq fun _ _ => emits_emitCount rfl
  | .object properties, d => by
    rw [Expression.compile, Expression.lower, Expression.segment]
    exact (emits_emitOp rfl).seq fun e _ => properties_emit properties e
  | .member object name, d => by
    rw [Expression.compile, Expression.lower, Expression.segment]
    exact (object.emits_compile d).seq fun _ _ => emits_named rfl
  | .index object key, d => by
    rw [Expression.compile, Expression.lower, Expression.segment]
    exact (object.emits_compile d).seq fun e _ =>
      (key.emits_compile e).seq fun _ _ => emits_emitOp rfl
  | .call callee arguments, d | .construct callee arguments, d => by
    rw [Expression.compile, Expression.lower, Expression.segment]
    split
    · rename_i h
      exact (callee.emits_compileReference h false d).seq fun e _ =>
        (expressions_emit arguments e).seq fun _ _ => emits_emitCount rfl
    · exact (callee.emits_compile d).seq fun e _ =>
        (expressions_emit arguments e).seq fun _ _ => emits_emitCount rfl
  | .unary .delete argument, d => by
    rw [Expression.compile, Expression.lower, Expression.segment]
    split
    · rename_i h
      exact (argument.emits_compileReference h false d).seq fun _ _ => emits_emitOp rfl
    · exact (argument.emits_compile d).seq fun _ _ => emits_emit _
  | .unary .typeof argument, d => by
    rw [Expression.compile, Expression.lower, Expression.segment]
    split
    · rename_i h
      exact (argument.emits_compileReference h false d).seq fun _ _ => emits_emitOp rfl
    · exact (argument.emits_compile d).seq fun _ _ => emits_emitOp rfl
  | .unary .minus argument, d | .unary .plus argument, d | .unary .not argument, d
  | .unary .bitNot argument, d | .unary .void argument, d =>
    (argument.emits_compile d).seq fun _ _ => emits_emitOp rfl
  | .update operator argument before, d => by
    rw [Expression.compile, Expression.lower, Expression.segment]
    split
    · rename_i h
      exact (argument.emits_compileReference h false d).seq fun _ _ => emits_emitOp _
    · exact (argument.emits_compile d).seq fun _ _ => emits_emit _
  | .binary operator left right, d => by
    rw [Expression.compile, Expression.lower, Expression.segment]
    exact (left.emits_compile d).seq fun e _ =>
      (right.emits_compile e).seq fun _ _ => emits_emitOp _
  | .logical operator left right, d => by
    rw [Expression.compile, Expression.lower, Expression.segment]
    exact (left.emits_compile d).seq fun _ _ => emits_skip fun e _ => right.emits_compile e
  | .assignment operator target value, d => by
    rw [Expression.compile, Expression.lower, Expression.segment]
    split
    · rename_i h
      apply (target.emits_compileReference h true d).seq
      intro e _
      cases operator.binary? with
      | none => exact (value.emits_compile e).seq fun _ _ => emits_emitOp rfl
      | some binary =>
        exact (emits_emitOp rfl).seq fun f _ => (value.emits_compile f).seq fun _ _ =>
          (emits_emitOp _).seq fun _ _ => emits_emitOp rfl
    · exact (target.emits_compile d).seq fun _ _ => emits_emit _
  | .conditional test consequent alternate, d => by
    rw [Expression.compile, Expression.lower, Expression.segment]
    have dropped (f : Draft) : Emits (do emitOp .pop; alternate.compile)
        ((Segment.op .pop).seq alternate.segment) f :=
      (emits_emitOp rfl).seq fun e _ => alternate.emits_compile e
    have choice (f : Draft) := emits_branch true (d := f)
      (fun e _ => consequent.emits_compile e) (fun e _ => dropped e)
    simp only [bind_assoc] at choice
    exact (test.emits_compile d).seq fun f _ => choice f
  | .sequence expressions, d => by
    rw [Expression.compile, Expression.lower, Expression.segment]
    exact sequence_emits expressions d

/-- So does every place. -/
theorem Expression.emits_compileReference : (e : Expression) → e.isReference = true →
    ∀ create d, Emits (e.compileReference create) (e.referenceSegment create) d
  | .name text, _, create, d => by
    rw [Expression.compileReference, Expression.lowerReference, Expression.referenceSegment]
    exact emits_named rfl
  | .member object name, _, create, d => by
    rw [Expression.compileReference, Expression.lowerReference, Expression.referenceSegment]
    exact (object.emits_compile d).seq fun _ _ => (emits_named rfl).seq fun _ _ => emits_emitOp rfl
  | .index object key, _, create, d => by
    rw [Expression.compileReference, Expression.lowerReference, Expression.referenceSegment]
    exact (object.emits_compile d).seq fun e _ =>
      (key.emits_compile e).seq fun _ _ => emits_emitOp rfl

theorem expressions_emit : (values : List Expression) → ∀ d,
    Emits (compileExpressions values) (expressionsSegment values) d
  | [], d => by
    rw [compileExpressions, lowerExpressions, expressionsSegment]
    exact emits_nothing
  | value :: rest, d => by
    rw [compileExpressions, lowerExpressions, expressionsSegment]
    exact (value.emits_compile d).seq fun e _ => expressions_emit rest e

theorem sequence_emits : (values : List Expression) → ∀ d,
    Emits (compileSequence values) (sequenceSegment values) d
  | [], d => by
    rw [compileSequence, lowerSequence, sequenceSegment]
    exact emits_emitOp rfl
  | [value], d => by
    rw [compileSequence, lowerSequence, sequenceSegment]
    exact value.emits_compile d
  | value :: next :: rest, d => by
    rw [compileSequence, lowerSequence, sequenceSegment]
    exact (value.emits_compile d).seq fun _ _ =>
      (emits_emitOp rfl).seq fun f _ => sequence_emits (next :: rest) f

theorem elements_emit : (values : List (Option Expression)) → ∀ d,
    Emits (compileElements values) (elementsSegment values) d
  | [], d => by
    rw [compileElements, lowerElements, elementsSegment]
    exact emits_nothing
  | some value :: rest, d => by
    rw [compileElements, lowerElements, elementsSegment]
    exact (value.emits_compile d).seq fun e _ => elements_emit rest e
  | none :: rest, d => by
    rw [compileElements, lowerElements, elementsSegment]
    exact (emits_emitOp rfl).seq fun e _ => elements_emit rest e

theorem properties_emit : (values : List (Property Expression)) → ∀ d,
    Emits (compileProperties values) (propertiesSegment values) d
  | [], d => by
    rw [compileProperties, lowerProperties, propertiesSegment]
    exact emits_nothing
  | ⟨key, value⟩ :: rest, d => by
    rw [compileProperties, lowerProperties, propertiesSegment]
    exact (value.emits_compile d).seq fun _ _ =>
      (emits_named rfl).seq fun f _ => properties_emit rest f

end

/-! ## Statements -/

theorem declarators_emit : (declarators : List (Declarator Expression)) → ∀ d,
    Emits (compileDeclarators declarators) (declaratorsSegment declarators) d
  | [], d => by
    rw [compileDeclarators, lowerDeclarators, declaratorsSegment]
    exact emits_emitOp rfl
  | ⟨_, none⟩ :: rest, d => by
    rw [compileDeclarators, lowerDeclarators, declaratorsSegment]
    exact declarators_emit rest d
  | ⟨name, some init⟩ :: rest, d => by
    rw [compileDeclarators, lowerDeclarators, declaratorsSegment]
    exact (init.emits_compile d).seq fun _ _ =>
      (emits_named rfl).seq fun e _ => declarators_emit rest e

theorem LoopHead.emits_compile (head : LoopHead Expression) (d : Draft) :
    Emits head.compile head.segment d := by
  cases head with
  | declaration declarators => exact declarators_emit declarators d
  | expression value => exact value.emits_compile d

theorem dropped_emits (value : Option Expression) (d : Draft) :
    Emits (compileDropped value) (droppedSegment (value.map Expression.segment)) d := by
  cases value with
  | none => exact emits_nothing
  | some value => exact (value.emits_compile d).seq fun _ _ => emits_emitOp rfl

section Loops

variable {test : Expression} {body : Statement} {d : Draft}

/-- The code of a `while`. -/
theorem emits_while (h : ∀ e : Draft, e.escapes = d.escapes → Emits body.compile body.segment e) :
    Emits (do
      emitOp .pushUndefined
      let start ← position
      test.compile
      let toEnd ← reserveJump .jumpIfFalse
      emitOp .pop
      body.compile
      emitWith .jump (.jump start)
      patchJump toEnd)
      ((Segment.op .pushUndefined).seq
        (.cycle test.segment ((Segment.op .pop).seq body.segment))) d := by
  apply (emits_emitOp rfl).seq
  intro e same
  have round (f : Draft) (hf : f.escapes = e.escapes) : Emits (do emitOp .pop; body.compile)
      ((Segment.op .pop).seq body.segment) f :=
    (emits_emitOp rfl).seq fun g hg => h g (hg.trans (hf.trans same))
  have loop := emits_cycle (fun f _ => test.emits_compile f) round
  simp only [bind_assoc] at loop
  exact loop

/-- A body that stops leaves the names of the test and its own. -/
theorem stops_while (h : ∀ e : Draft, e.escapes = d.escapes → Stops body.compile body.leftovers e) :
    Stops (do
      emitOp .pushUndefined
      let start ← position
      test.compile
      let toEnd ← reserveJump .jumpIfFalse
      emitOp .pop
      body.compile
      emitWith .jump (.jump start)
      patchJump toEnd) (test.segment.names ++ body.leftovers) d := by
  apply Stops.after (emits_emitOp rfl)
  intro _ e₁ h₁
  apply Stops.after grows_position
  intro start e₂ h₂
  apply Stops.after (test.emits_compile e₂)
  intro _ e₃ h₃
  apply Stops.after (grows_reserveJump .jumpIfFalse)
  intro toEnd e₄ h₄
  apply Stops.after (emits_emitOp rfl)
  intro _ e₅ h₅
  exact (h e₅ (by simp [h₁, h₂, h₃, h₄, h₅])).first

/-- The code of a `do`. -/
theorem emits_doWhile (h : ∀ e : Draft, e.escapes = d.escapes → Emits body.compile body.segment e) :
    Emits (do
      let start ← position
      body.compile
      test.compile
      let toEnd ← reserveJump .jumpIfFalse
      emitOp .pop
      emitWith .jump (.jump start)
      patchJump toEnd) (.cycle (body.segment.seq test.segment) (.op .pop)) d := by
  have head (e : Draft) (he : e.escapes = d.escapes) : Emits (do body.compile; test.compile)
      (body.segment.seq test.segment) e :=
    (h e he).seq fun f _ => test.emits_compile f
  have loop := emits_cycle head fun _ _ => emits_emitOp (o := .pop) rfl
  simp only [bind_assoc] at loop
  exact loop

/-- A body that stops leaves its own names, since it comes first. -/
theorem stops_doWhile
    (h : ∀ e : Draft, e.escapes = d.escapes → Stops body.compile body.leftovers e) :
    Stops (do
      let start ← position
      body.compile
      test.compile
      let toEnd ← reserveJump .jumpIfFalse
      emitOp .pop
      emitWith .jump (.jump start)
      patchJump toEnd) body.leftovers d := by
  apply Stops.after grows_position
  intro start e same
  exact (h e same).first

/-- The rounds of a `for`, with a test or without one. -/
theorem emits_rounds (test update : Option Expression)
    (h : ∀ e : Draft, e.escapes = d.escapes → Emits body.compile body.segment e) :
    Emits (lowerRounds .direct test update body.compile)
      ((Segment.op .pushUndefined).seq
        (match test with
        | some test => .cycle test.segment ((Segment.op .pop).seq
            (body.segment.seq (droppedSegment (update.map Expression.segment))))
        | none => .forever ((Segment.op .pop).seq
            (body.segment.seq (droppedSegment (update.map Expression.segment)))))) d := by
  apply (emits_emitOp rfl).seq
  intro e same
  have round (f : Draft) (hf : f.escapes = e.escapes) :
      Emits (do emitOp .pop; body.compile; compileDropped update)
        ((Segment.op .pop).seq
          (body.segment.seq (droppedSegment (update.map Expression.segment)))) f :=
    (emits_emitOp rfl).seq fun g hg =>
      (h g (hg.trans (hf.trans same))).seq fun k _ => dropped_emits update k
  cases test with
  | some test =>
    have loop := emits_cycle (fun f _ => test.emits_compile f) round
    simp only [bind_assoc] at loop
    exact loop
  | none =>
    have loop := emits_forever round
    simp only [bind_assoc] at loop
    exact loop

/-- A body that stops leaves the names of the test and its own, but none of the update. -/
theorem stops_rounds (test update : Option Expression)
    (h : ∀ e : Draft, e.escapes = d.escapes → Stops body.compile body.leftovers e) :
    Stops (lowerRounds .direct test update body.compile)
      ((droppedSegment (test.map Expression.segment)).names ++ body.leftovers) d := by
  apply Stops.after (emits_emitOp rfl)
  intro _ e₁ h₁
  apply Stops.after grows_position
  intro start e₂ h₂
  cases test with
  | some test =>
    rw [Option.map_some, names_dropped_some]
    apply Stops.after (test.emits_compile e₂)
    intro _ e₃ h₃
    apply Stops.after (grows_reserveJump .jumpIfFalse)
    intro toEnd e₄ h₄
    apply Stops.after (emits_emitOp rfl)
    intro _ e₅ h₅
    exact (h e₅ (by simp [h₁, h₂, h₃, h₄, h₅])).first
  | none =>
    apply Stops.after (emits_emitOp rfl)
    intro _ e₃ h₃
    exact (h e₃ (by simp [h₁, h₂, h₃])).first

/-- The code of a `for`. -/
theorem emits_for (init : Option (LoopHead Expression)) (test update : Option Expression)
    (h : ∀ e : Draft, e.escapes = d.escapes → Emits body.compile body.segment e) :
    Emits (lowerFor .direct init test update body.compile)
      ((droppedSegment (init.map LoopHead.segment)).seq ((Segment.op .pushUndefined).seq
        (match test with
        | some test => .cycle test.segment ((Segment.op .pop).seq
            (body.segment.seq (droppedSegment (update.map Expression.segment))))
        | none => .forever ((Segment.op .pop).seq
            (body.segment.seq (droppedSegment (update.map Expression.segment))))))) d := by
  cases init with
  | none =>
    apply emits_nothing.seq
    intro e same
    exact emits_rounds test update fun f hf => h f (hf.trans same)
  | some head =>
    have first (e : Draft) : Emits (do head.compile; emitOp .pop)
        (head.segment.seq (Segment.op .pop)) e :=
      (head.emits_compile e).seq fun _ _ => emits_emitOp rfl
    have total := (first d).seq fun e same =>
      emits_rounds test update fun f hf => h f (hf.trans same)
    simp only [bind_assoc] at total
    exact total

/-- A body that stops leaves the names of what begins the loop as well. -/
theorem stops_for (init : Option (LoopHead Expression)) (test update : Option Expression)
    (h : ∀ e : Draft, e.escapes = d.escapes → Stops body.compile body.leftovers e) :
    Stops (lowerFor .direct init test update body.compile)
      ((droppedSegment (init.map LoopHead.segment)).names ++
        (droppedSegment (test.map Expression.segment)).names ++ body.leftovers) d := by
  rw [List.append_assoc]
  cases init with
  | none => exact stops_rounds test update h
  | some head =>
    rw [Option.map_some, names_dropped_some]
    apply Stops.after (head.emits_compile d)
    intro _ e₁ h₁
    apply Stops.after (emits_emitOp rfl)
    intro _ e₂ h₂
    exact stops_rounds test update fun f hf => h f (hf.trans (h₂.trans h₁))

end Loops

/-- A statement without code of its own is handed over where that is allowed. -/
theorem foreign_emits {s : Statement} {d : Draft} (foreign : s.isForeign = true)
    (h : d.escapes = true ∨ s.needsWalker = false) : Emits s.compile s.segment d := by
  rw [Statement.compile_of_isForeign foreign, Statement.segment_of_isForeign foreign]
  rw [Statement.needsWalker_of_isForeign foreign] at h
  exact emits_escape (h.resolve_right nofun)

/-- Where it is not allowed, the compiler stops. -/
theorem foreign_stops {s : Statement} {d : Draft} (foreign : s.isForeign = true)
    (inside : d.escapes = false) : Stops s.compile s.leftovers d := by
  rw [Statement.compile_of_isForeign foreign, Statement.leftovers_of_isForeign foreign]
  exact stops_escape inside

mutual

/-- Every statement compiles to its segment, unless it needs the tree walker where nothing may be
    left to it. -/
theorem Statement.emits_compile : (s : Statement) → ∀ d : Draft,
    d.escapes = true ∨ s.needsWalker = false → Emits s.compile s.segment d
  | .block body, d, h => by
    rw [Statement.compile, Statement.lower, Statement.segment]
    rw [Statement.needsWalker] at h
    exact block_emits body d h
  | .expression value, d, _ => by
    rw [Statement.compile, Statement.lower, Statement.segment]
    exact value.emits_compile d
  | .declaration declarators, d, _ => by
    rw [Statement.compile, Statement.lower, Statement.segment]
    exact declarators_emit declarators d
  | .ifElse test consequent alternate, d, h => by
    rw [Statement.compile, Statement.lower, Statement.segment]
    rw [Statement.needsWalker, Bool.or_eq_false_iff] at h
    apply (test.emits_compile d).seq
    intro e same
    rw [← same] at h
    apply emits_branch false
    · intro f hf
      exact consequent.emits_compile f (hf ▸ h.imp_right (·.1))
    · intro f hf
      exact alternate_emits alternate f (hf ▸ h.imp_right (·.2))
  | .whileLoop test body, d, h => by
    rw [Statement.compile, Statement.lower, Statement.segment]
    rw [Statement.needsWalker] at h
    split
    · rename_i needs
      refine emits_loop_escaped (h.resolve_right (by simp [needs])) (stops_while fun e he => ?_)
      exact body.stops_compile e he needs
    · rename_i needs
      refine emits_loop (emits_while fun e _ => ?_)
      exact body.emits_compile e (.inr (by simpa using needs))
  | .doWhile body test, d, h => by
    rw [Statement.compile, Statement.lower, Statement.segment]
    rw [Statement.needsWalker] at h
    split
    · rename_i needs
      refine emits_loop_escaped (h.resolve_right (by simp [needs])) (stops_doWhile fun e he => ?_)
      exact body.stops_compile e he needs
    · rename_i needs
      refine emits_loop (emits_doWhile fun e _ => ?_)
      exact body.emits_compile e (.inr (by simpa using needs))
  | .forLoop init test update body, d, h => by
    rw [Statement.compile, Statement.lower, Statement.segment]
    rw [Statement.needsWalker] at h
    split
    · rename_i needs
      refine emits_loop_escaped (h.resolve_right (by simp [needs]))
        (stops_for init test update fun e he => ?_)
      exact body.stops_compile e he needs
    · rename_i needs
      refine emits_loop (emits_for init test update fun e _ => ?_)
      exact body.emits_compile e (.inr (by simpa using needs))
  | .empty, d, _ => by
    rw [Statement.compile, Statement.lower, Statement.segment]
    exact emits_emitOp rfl
  | .forIn .., _, h | .ret .., _, h | .breakTo .., _, h | .continueTo .., _, h | .throw .., _, h
  | .tryCatch .., _, h | .switch .., _, h | .withObject .., _, h | .labeled .., _, h
  | .function .., _, h => foreign_emits rfl h

theorem block_emits : (body : List Statement) → ∀ d : Draft,
    d.escapes = true ∨ blockNeedsWalker body = false →
      Emits (compileBlock body) (blockSegment body) d
  | [], d, _ => by
    rw [compileBlock, lowerBlock, blockSegment]
    exact emits_emitOp rfl
  | [s], d, h => by
    rw [compileBlock, lowerBlock, blockSegment]
    rw [blockNeedsWalker, Bool.or_eq_false_iff] at h
    exact s.emits_compile d (h.imp_right (·.1))
  | s :: next :: rest, d, h => by
    rw [compileBlock, lowerBlock, blockSegment]
    rw [blockNeedsWalker, Bool.or_eq_false_iff] at h
    apply (s.emits_compile d (h.imp_right (·.1))).seq
    intro e he
    apply (emits_emitOp rfl).seq
    intro f hf
    rw [← he, ← hf] at h
    exact block_emits (next :: rest) f (h.imp_right (·.2))

theorem alternate_emits : (alternate : Option Statement) → ∀ d : Draft,
    d.escapes = true ∨ alternateNeedsWalker alternate = false →
      Emits (compileAlternate alternate) (alternateSegment alternate) d
  | none, d, _ => by
    rw [compileAlternate, lowerAlternate, alternateSegment]
    exact emits_emitOp rfl
  | some s, d, h => by
    rw [compileAlternate, lowerAlternate, alternateSegment]
    rw [alternateNeedsWalker] at h
    exact s.emits_compile d h

/-- In that case the compiler stops, and only the leftovers of the statement are added. -/
theorem Statement.stops_compile : (s : Statement) → ∀ d : Draft, d.escapes = false →
    s.needsWalker = true → Stops s.compile s.leftovers d
  | .block body, d, inside, h => by
    rw [Statement.compile, Statement.lower, Statement.leftovers]
    rw [Statement.needsWalker] at h
    exact block_stops body d inside h
  | .ifElse test consequent alternate, d, inside, h => by
    rw [Statement.compile, Statement.lower, Statement.leftovers]
    rw [Statement.needsWalker, Bool.or_eq_true_iff] at h
    apply Stops.after (test.emits_compile d)
    intro _ e₁ h₁
    split
    · rename_i needs
      apply Stops.after (grows_reserveJump .jumpIfFalse)
      intro toAlternate e₂ h₂
      exact (consequent.stops_compile e₂ (by simp [h₂, h₁, inside]) needs).first
    · rename_i needs
      apply stops_branch false
      · intro f _
        exact consequent.emits_compile f (.inr (by simpa using needs))
      · intro f hf
        exact alternate_stops alternate f (by simp [hf, h₁, inside]) (h.resolve_left needs)
  | .whileLoop test body, d, inside, h => by
    rw [Statement.compile, Statement.lower, Statement.leftovers]
    rw [Statement.needsWalker] at h
    exact stops_loop inside (stops_while fun e he => body.stops_compile e he h)
  | .doWhile body test, d, inside, h => by
    rw [Statement.compile, Statement.lower, Statement.leftovers]
    rw [Statement.needsWalker] at h
    exact stops_loop inside (stops_doWhile fun e he => body.stops_compile e he h)
  | .forLoop init test update body, d, inside, h => by
    rw [Statement.compile, Statement.lower, Statement.leftovers]
    rw [Statement.needsWalker] at h
    exact stops_loop inside (stops_for init test update fun e he => body.stops_compile e he h)
  | .expression value, _, _, h => by
    rw [Statement.needsWalker] at h
    cases h
  | .declaration declarators, _, _, h => by
    rw [Statement.needsWalker] at h
    cases h
  | .empty, _, _, h => by
    rw [Statement.needsWalker] at h
    cases h
  | .forIn .., _, inside, _ | .ret .., _, inside, _ | .breakTo .., _, inside, _
  | .continueTo .., _, inside, _ | .throw .., _, inside, _ | .tryCatch .., _, inside, _
  | .switch .., _, inside, _ | .withObject .., _, inside, _ | .labeled .., _, inside, _
  | .function .., _, inside, _ => foreign_stops rfl inside

theorem block_stops : (body : List Statement) → ∀ d : Draft, d.escapes = false →
    blockNeedsWalker body = true → Stops (compileBlock body) (blockLeftovers body) d
  | [], _, _, h => by
    rw [blockNeedsWalker] at h
    cases h
  | [s], d, inside, h => by
    rw [blockNeedsWalker, blockNeedsWalker, Bool.or_false] at h
    rw [compileBlock, lowerBlock, blockLeftovers, if_pos h]
    exact s.stops_compile d inside h
  | s :: next :: rest, d, inside, h => by
    rw [compileBlock, lowerBlock, blockLeftovers]
    rw [blockNeedsWalker, Bool.or_eq_true_iff] at h
    split
    · rename_i needs
      exact (s.stops_compile d inside needs).first
    · rename_i needs
      apply Stops.after (s.emits_compile d (.inr (by simpa using needs)))
      intro _ e he
      apply Stops.after (emits_emitOp rfl)
      intro _ f hf
      exact block_stops (next :: rest) f (by simp [hf, he, inside]) (h.resolve_left needs)

theorem alternate_stops : (alternate : Option Statement) → ∀ d : Draft, d.escapes = false →
    alternateNeedsWalker alternate = true →
      Stops (compileAlternate alternate) (alternateLeftovers alternate) d
  | none, _, _, h => by
    rw [alternateNeedsWalker] at h
    cases h
  | some s, d, inside, h => by
    rw [compileAlternate, lowerAlternate, alternateLeftovers]
    rw [alternateNeedsWalker] at h
    exact s.stops_compile d inside h

end

end StackScript
