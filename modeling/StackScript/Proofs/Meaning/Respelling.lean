import StackScript.Proofs.Meaning.Endings

/-!
# Dotted and computed properties

A property `o.name` can as well be written `o["name"]`. The two become different code: the name of
the one goes to the pool and the text of the other to the arena, and all code behind them moves.
Writing any of the dotted properties of a source in the other way does not change what the source
means, and so it does not change how runs end.
-/

namespace StackScript

/-- Some of the dotted properties in a tree. Each of them is told by the way to it, which is the
    numbers of the parts that lead from the whole tree to the property. -/
abbrev Picked := List Nat → Bool

/-- Those that are in a part. -/
def Picked.within (picked : Picked) (part : Nat) : Picked :=
  fun way => picked (part :: way)

mutual

/-- Writes the picked properties with their names as texts. Function literals stay as they are. -/
def Expression.respell : Expression → Picked → Expression
  | .array elements, picked => .array (respellElements elements picked)
  | .object properties, picked => .object (respellProperties properties picked)
  | .member object name, picked =>
    let object := object.respell (picked.within 0)
    if picked [] then .index object (.literal (.string name)) else .member object name
  | .index object key, picked =>
    .index (object.respell (picked.within 0)) (key.respell (picked.within 1))
  | .call callee arguments, picked =>
    .call (callee.respell (picked.within 0)) (respellAll arguments (picked.within 1))
  | .construct callee arguments, picked =>
    .construct (callee.respell (picked.within 0)) (respellAll arguments (picked.within 1))
  | .unary operator argument, picked => .unary operator (argument.respell (picked.within 0))
  | .update operator argument before, picked =>
    .update operator (argument.respell (picked.within 0)) before
  | .binary operator left right, picked =>
    .binary operator (left.respell (picked.within 0)) (right.respell (picked.within 1))
  | .logical operator left right, picked =>
    .logical operator (left.respell (picked.within 0)) (right.respell (picked.within 1))
  | .assignment operator target value, picked =>
    .assignment operator (target.respell (picked.within 0)) (value.respell (picked.within 1))
  | .conditional test consequent alternate, picked =>
    .conditional (test.respell (picked.within 0)) (consequent.respell (picked.within 1))
      (alternate.respell (picked.within 2))
  | .sequence expressions, picked => .sequence (respellAll expressions picked)
  | e, _ => e

/-- The same for each of the expressions. -/
def respellAll : List Expression → Picked → List Expression
  | [], _ => []
  | value :: rest, picked =>
    value.respell (picked.within 0) :: respellAll rest (picked.within 1)

/-- The same for each element of an array literal. -/
def respellElements : List (Option Expression) → Picked → List (Option Expression)
  | [], _ => []
  | some value :: rest, picked =>
    some (value.respell (picked.within 0)) :: respellElements rest (picked.within 1)
  | none :: rest, picked => none :: respellElements rest (picked.within 1)

/-- The same for the value of each property of an object literal. -/
def respellProperties : List (Property Expression) → Picked → List (Property Expression)
  | [], _ => []
  | ⟨key, value⟩ :: rest, picked =>
    ⟨key, value.respell (picked.within 0)⟩ :: respellProperties rest (picked.within 1)

end

/-- The same for the initial value of each declared name. -/
def respellDeclarators : List (Declarator Expression) → Picked → List (Declarator Expression)
  | [], _ => []
  | ⟨name, init⟩ :: rest, picked =>
    ⟨name, init.map (·.respell (picked.within 0))⟩ :: respellDeclarators rest (picked.within 1)

/-- The same for what begins a `for`. -/
def LoopHead.respell : LoopHead Expression → Picked → LoopHead Expression
  | .declaration declarators, picked => .declaration (respellDeclarators declarators picked)
  | .expression value, picked => .expression (value.respell picked)

mutual

/-- Writes the picked properties with their names as texts. What is left to the tree walker stays as
    it is. -/
def Statement.respell : Statement → Picked → Statement
  | .block body, picked => .block (respellBlock body picked)
  | .expression value, picked => .expression (value.respell picked)
  | .declaration declarators, picked => .declaration (respellDeclarators declarators picked)
  | .ifElse test consequent alternate, picked =>
    .ifElse (test.respell (picked.within 0)) (consequent.respell (picked.within 1))
      (respellAlternate alternate (picked.within 2))
  | .whileLoop test body, picked =>
    if body.needsWalker then .whileLoop test body
    else .whileLoop (test.respell (picked.within 0)) (body.respell (picked.within 1))
  | .doWhile body test, picked =>
    if body.needsWalker then .doWhile body test
    else .doWhile (body.respell (picked.within 0)) (test.respell (picked.within 1))
  | .forLoop init test update body, picked =>
    if body.needsWalker then .forLoop init test update body
    else .forLoop (init.map (·.respell (picked.within 0))) (test.map (·.respell (picked.within 1)))
      (update.map (·.respell (picked.within 2))) (body.respell (picked.within 3))
  | s, _ => s

/-- The same for each of the statements. -/
def respellBlock : List Statement → Picked → List Statement
  | [], _ => []
  | s :: rest, picked => s.respell (picked.within 0) :: respellBlock rest (picked.within 1)

/-- The same for the alternate of a choice, if there is one. -/
def respellAlternate : Option Statement → Picked → Option Statement
  | none, _ => none
  | some s, picked => some (s.respell picked)

end

/-- The same for all that an entry point is compiled from. -/
def Source.respell : Source → Picked → Source
  | .expression tree, picked => .expression (tree.respell picked)
  | .statements body asBlock, picked => .statements (respellBlock body picked) asBlock

/-! ## What stays -/

mutual

/-- The same statements are left to the tree walker. -/
theorem Statement.needsWalker_respell : (s : Statement) → ∀ picked,
    (s.respell picked).needsWalker = s.needsWalker
  | .block body, picked => block_needsWalker_respell body picked
  | .ifElse test consequent alternate, picked =>
    congrArg₂ (· || ·) (consequent.needsWalker_respell _)
      (alternate_needsWalker_respell alternate _)
  | .whileLoop test body, picked => by
    rw [Statement.respell]
    split
    · rfl
    · exact body.needsWalker_respell _
  | .doWhile body test, picked => by
    rw [Statement.respell]
    split
    · rfl
    · exact body.needsWalker_respell _
  | .forLoop init test update body, picked => by
    rw [Statement.respell]
    split
    · rfl
    · exact body.needsWalker_respell _
  | .expression _, _ | .declaration _, _ | .empty, _ | .forIn .., _ | .ret .., _ | .breakTo .., _
  | .continueTo .., _ | .throw .., _ | .tryCatch .., _ | .switch .., _ | .withObject .., _
  | .labeled .., _ | .function .., _ => rfl
termination_by structural s => s

theorem block_needsWalker_respell : (body : List Statement) → ∀ picked,
    blockNeedsWalker (respellBlock body picked) = blockNeedsWalker body
  | [], _ => rfl
  | s :: rest, _ =>
    congrArg₂ (· || ·) (s.needsWalker_respell _) (block_needsWalker_respell rest _)
termination_by structural body => body

theorem alternate_needsWalker_respell : (alternate : Option Statement) → ∀ picked,
    alternateNeedsWalker (respellAlternate alternate picked) = alternateNeedsWalker alternate
  | none, _ => rfl
  | some s, _ => s.needsWalker_respell _
termination_by structural alternate => alternate

end

/-! ## The meaning -/

open Evaluate

mutual

/-- An expression means the same with its properties written as texts. -/
theorem Expression.eval_respell : (e : Expression) → ∀ picked, (e.respell picked).eval = e.eval
  | .literal _, _ | .name _, _ | .thisValue, _ | .function .., _ => rfl
  | .array elements, picked => by
    rw [Expression.respell, Expression.eval, Expression.eval, elements_respell elements]
  | .object properties, picked => by
    rw [Expression.respell, Expression.eval, Expression.eval]
    simp only [properties_respell properties]
  | .member object name, picked => by
    rw [Expression.respell]
    split
    · -- The text is its own key.
      rw [Expression.eval, Expression.eval, object.eval_respell]
      rfl
    · rw [Expression.eval, Expression.eval, object.eval_respell]
  | .index object key, picked => by
    rw [Expression.respell, Expression.eval, Expression.eval, object.eval_respell,
      key.eval_respell]
  | .call callee arguments, picked => by
    rw [Expression.respell, Expression.eval, Expression.eval, callee.eval_respell,
      callee.place?_respell, all_respell arguments]
  | .construct callee arguments, picked => by
    rw [Expression.respell, Expression.eval, Expression.eval, callee.eval_respell,
      callee.place?_respell, all_respell arguments]
  | .unary operator argument, picked => by
    cases operator with
    | delete | typeof =>
      rw [Expression.respell, Expression.eval, Expression.eval, argument.eval_respell,
        argument.place?_respell]
    | _ => exact congrArg (· >>= UnaryOperator.apply _) (argument.eval_respell _)
  | .update operator argument before, picked => by
    rw [Expression.respell, Expression.eval, Expression.eval, argument.eval_respell,
      argument.place?_respell]
  | .binary operator left right, picked => by
    rw [Expression.respell, Expression.eval, Expression.eval, left.eval_respell,
      right.eval_respell]
  | .logical operator left right, picked => by
    rw [Expression.respell, Expression.eval, Expression.eval, left.eval_respell,
      right.eval_respell]
  | .assignment operator target value, picked => by
    rw [Expression.respell, Expression.eval, Expression.eval, target.eval_respell,
      target.place?_respell, value.eval_respell]
  | .conditional test consequent alternate, picked => by
    rw [Expression.respell, Expression.eval, Expression.eval, test.eval_respell,
      consequent.eval_respell, alternate.eval_respell]
  | .sequence expressions, picked => by
    rw [Expression.respell, Expression.eval, Expression.eval, sequence_respell expressions]
termination_by structural e => e

/-- A property is the same place in either spelling. -/
theorem Expression.place?_respell : (e : Expression) → ∀ picked,
    (e.respell picked).place? = e.place?
  | .member object name, picked => by
    rw [Expression.respell]
    split
    · rw [Expression.place?, Expression.place?, object.eval_respell]
      rfl
    · rw [Expression.place?, Expression.place?, object.eval_respell]
  | .index object key, picked => by
    rw [Expression.respell, Expression.place?, Expression.place?,
      object.eval_respell, key.eval_respell]
  | .literal _, _ | .name _, _ | .thisValue, _ | .function .., _ | .array _, _ | .object _, _
  | .call .., _ | .construct .., _ | .unary .., _ | .update .., _ | .binary .., _ | .logical .., _
  | .assignment .., _ | .conditional .., _ | .sequence _, _ => rfl
termination_by structural e => e

theorem all_respell : (list : List Expression) → ∀ picked,
    evalAll (respellAll list picked) = evalAll list
  | [], _ => rfl
  | value :: rest, picked => by
    rw [respellAll, evalAll, evalAll, value.eval_respell, all_respell rest]
termination_by structural list => list

theorem sequence_respell : (list : List Expression) → ∀ picked,
    evalSequence (respellAll list picked) = evalSequence list
  | [], _ => rfl
  | [value], picked => value.eval_respell _
  | value :: next :: rest, picked => by
    rw [respellAll, respellAll, evalSequence, evalSequence, value.eval_respell]
    exact congrArg (value.eval >>= fun _ => ·) (sequence_respell (next :: rest) _)
termination_by structural list => list

theorem elements_respell : (list : List (Option Expression)) → ∀ picked,
    evalElements (respellElements list picked) = evalElements list
  | [], _ => rfl
  | some value :: rest, picked => by
    rw [respellElements, evalElements, evalElements, value.eval_respell, elements_respell rest]
  | none :: rest, picked => by
    rw [respellElements, evalElements, evalElements, elements_respell rest]
termination_by structural list => list

theorem properties_respell : (list : List (Property Expression)) → ∀ picked id,
    evalProperties id (respellProperties list picked) = evalProperties id list
  | [], _, _ => rfl
  | ⟨key, value⟩ :: rest, picked, id => by
    rw [respellProperties, evalProperties, evalProperties, value.eval_respell,
      properties_respell rest]
termination_by structural list => list

end

theorem declarators_respell (list : List (Declarator Expression)) (picked : Picked) :
    evalDeclarators (respellDeclarators list picked) = evalDeclarators list := by
  induction list generalizing picked with
  | nil => rfl
  | cons declarator rest ih =>
    obtain ⟨name, init⟩ := declarator
    cases init with
    | none => exact ih _
    | some init =>
      simp only [respellDeclarators, Option.map_some, evalDeclarators, init.eval_respell, ih]

theorem LoopHead.eval_respell (head : LoopHead Expression) (picked : Picked) :
    (head.respell picked).eval = head.eval := by
  cases head with
  | declaration declarators => exact declarators_respell declarators picked
  | expression value => exact value.eval_respell picked

theorem test_respell (test : Option Expression) (picked : Picked) :
    evalTest (test.map (·.respell picked)) = evalTest test := by
  cases test with
  | none => rfl
  | some test => exact test.eval_respell picked

/-- A part that need not be there means the same if it does when it is there. -/
theorem dropped_respell {α : Type} {value : α → Evaluate Value} {respelled : α → α}
    (same : ∀ a, value (respelled a) = value a) (part : Option α) :
    evalDropped ((part.map respelled).map value) = evalDropped (part.map value) := by
  cases part with
  | none => rfl
  | some a => rw [Option.map_some, Option.map_some, Option.map_some, same]

mutual

/-- So does a statement. -/
theorem Statement.eval_respell (fuel : Nat) : (s : Statement) → ∀ picked,
    (s.respell picked).eval fuel = s.eval fuel
  | .block body, picked => by
    rw [Statement.respell, Statement.eval, Statement.eval, block_respell fuel body]
  | .expression value, picked => value.eval_respell picked
  | .declaration declarators, picked => declarators_respell declarators picked
  | .ifElse test consequent alternate, picked => by
    rw [Statement.respell, Statement.eval, Statement.eval, test.eval_respell,
      consequent.eval_respell, alternate_respell fuel alternate]
  | .whileLoop test body, picked => by
    rw [Statement.respell]
    split
    · rfl
    · rename_i inline
      rw [Statement.eval, Statement.eval, body.needsWalker_respell, if_neg inline, if_neg inline,
        test.eval_respell, body.eval_respell]
  | .doWhile body test, picked => by
    rw [Statement.respell]
    split
    · rfl
    · rename_i inline
      rw [Statement.eval, Statement.eval, body.needsWalker_respell, if_neg inline, if_neg inline,
        test.eval_respell, body.eval_respell]
  | .forLoop init test update body, picked => by
    rw [Statement.respell]
    split
    · rfl
    · rename_i inline
      rw [Statement.eval, Statement.eval, body.needsWalker_respell, if_neg inline, if_neg inline,
        dropped_respell (fun head => head.eval_respell _), test_respell,
        dropped_respell (fun value => value.eval_respell _), body.eval_respell]
  | .empty, _ | .forIn .., _ | .ret .., _ | .breakTo .., _ | .continueTo .., _ | .throw .., _
  | .tryCatch .., _ | .switch .., _ | .withObject .., _ | .labeled .., _ | .function .., _ => rfl
termination_by structural s => s

theorem block_respell (fuel : Nat) : (body : List Statement) → ∀ picked,
    evalBlock fuel (respellBlock body picked) = evalBlock fuel body
  | [], _ => rfl
  | [s], picked => s.eval_respell fuel _
  | s :: next :: rest, picked => by
    rw [respellBlock, respellBlock, evalBlock, evalBlock, s.eval_respell]
    exact congrArg (s.eval fuel >>= fun _ => ·) (block_respell fuel (next :: rest) _)
termination_by structural body => body

theorem alternate_respell (fuel : Nat) : (alternate : Option Statement) → ∀ picked,
    evalAlternate fuel (respellAlternate alternate picked) = evalAlternate fuel alternate
  | none, _ => rfl
  | some s, picked => s.eval_respell fuel picked
termination_by structural alternate => alternate

end

/-- So does all that an entry point is compiled from. -/
theorem Source.eval_respell (fuel : Nat) (source : Source) (picked : Picked) :
    (source.respell picked).eval fuel = source.eval fuel := by
  cases source with
  | expression tree => exact tree.eval_respell picked
  | statements body asBlock =>
    cases asBlock with
    | true => exact block_respell fuel body picked
    | false =>
      cases body with
      | nil => rfl
      | cons first rest => exact first.eval_respell fuel _

namespace CodeUnit

open Running

variable {u u' : CodeUnit} {source : Source} {arena arena' : Arena} {start start' : Nat}

/-- Dotted properties may be written in the other way. The code ends if and only if the code of the
    source ends, and then it ends in the same way and leaves the same machine. -/
theorem run_respelled (picked : Picked) (accepted : (u.compile source arena).result = .ok start)
    (accepted' : (u'.compile (source.respell picked) arena').result = .ok start') (m : Machine) :
    let code := (u.compile source arena).unit.runnable
    let code' := (u'.compile (source.respell picked) arena').unit.runnable
    (∀ budget budget', ((entered m start).run code budget).stop ≠ .fault .outOfSteps →
        ((entered m start').run code' budget').stop ≠ .fault .outOfSteps →
        (entered m start').run code' budget' = (entered m start).run code budget) ∧
      ((∃ budget, ((entered m start).run code budget).stop ≠ .fault .outOfSteps) ↔
        ∃ budget, ((entered m start').run code' budget).stop ≠ .fault .outOfSteps) := by
  intro code code'
  have added := adds_of_compile_eq_ok accepted
  have added' := adds_of_compile_eq_ok accepted'
  have same (fuel : Nat) := source.eval_respell fuel picked
  refine ⟨?_, ?_, ?_⟩
  · intro budget budget' real real'
    obtain ⟨steps, ends⟩ := added.endsAfter_of_eval_eq added' same m real
    exact ends.run_eq real'
  · rintro ⟨budget, real⟩
    obtain ⟨steps, ends⟩ := added.endsAfter_of_eval_eq added' same m real
    exact ends.exists_uncut
  · rintro ⟨budget, real⟩
    obtain ⟨steps, ends⟩ := added'.endsAfter_of_eval_eq added (fun fuel => (same fuel).symm) m real
    exact ends.exists_uncut

/-- A loop that copies one property to another, and the type of what was copied. -/
def copyLoop : Source :=
  .statements
    [.whileLoop (.member (.name "o") "a")
      (.expression (.assignment .assign (.member (.name "o") "a") (.member (.name "o") "b"))),
      .expression (.unary .typeof (.member (.name "o") "a"))] true

/-- All properties but the one that is copied. -/
def allButCopied : Picked :=
  fun way => way != [0, 1, 1]

example : copyLoop.respell allButCopied = .statements
    [.whileLoop (.index (.name "o") (.literal (.string "a")))
      (.expression (.assignment .assign (.index (.name "o") (.literal (.string "a")))
        (.member (.name "o") "b"))),
      .expression (.unary .typeof (.index (.name "o") (.literal (.string "a"))))] true := rfl

/-- A machine with one object, whose property `b` is null. -/
def withObject (a : Value) : Machine :=
  { globals := [("o", .object 0)], objects := #[[("a", a), ("b", .null)]] }

/-- The loop takes a round in either spelling. -/
theorem run_respelled_copyLoop :
    (({} : CodeUnit).compile copyLoop {}).result = .ok 0 ∧
      (({} : CodeUnit).compile (copyLoop.respell allButCopied) {}).result = .ok 0 ∧
      ∃ budget, (entered (withObject (.bool true)) 0).run
          (({} : CodeUnit).compile (copyLoop.respell allButCopied) {}).unit.runnable budget =
        ⟨.outcome (.returned (.string "object")), withObject .null⟩ := by
  have accepted : (({} : CodeUnit).compile copyLoop {}).result = .ok 0 := by decide +kernel
  have accepted' : (({} : CodeUnit).compile (copyLoop.respell allButCopied) {}).result = .ok 0 := by
    decide +kernel
  have value : (copyLoop.eval 2).ended (withObject (.bool true)) =
      ⟨.outcome (.returned (.string "object")), withObject .null⟩ := rfl
  have real : ((copyLoop.eval 2).ended (withObject (.bool true))).stop ≠ .fault .outOfSteps := by
    rw [value]
    simp
  obtain ⟨steps, ends⟩ := (adds_of_compile_eq_ok accepted).exists_endsAfter _ real
  have ended := ends.ends steps (Nat.le_refl steps)
  obtain ⟨alike, bothEnd⟩ :=
    run_respelled allButCopied accepted accepted' (withObject (.bool true))
  obtain ⟨budget, uncut⟩ := bothEnd.mp ends.exists_uncut
  refine ⟨accepted, accepted', budget, ?_⟩
  rw [alike steps budget (by rw [ended]; exact real) uncut, ended, value]

end CodeUnit

end StackScript
