import StackScript.Proofs.Compile.Lowering

/-!
# Properties of all compiled code

A property that single instructions have, and that the control structures keep, is a property of
compiling every tree. The control structures are made of still smaller steps, which hand on offsets
and places of names. A property that is kept when steps follow one another, whatever they hand on,
only has to be seen for each of these steps.
-/

namespace StackScript

namespace Compile

/-- The property is kept by everything that the code of an expression is made of. -/
structure Straight (P : Compile Unit → Prop) : Prop where
  nothing : P (pure ())
  seq : ∀ {first second : Compile Unit}, P first → P second → P (do first; second)
  emit : ∀ i, P (emit i)
  named : ∀ op text extra, P (do
    let n ← intern text
    Compile.emit { op := op, operand := some (.name n), extra := extra })
  copied : ∀ text {rest : String → Compile Unit}, (∀ copied, P (rest copied)) →
    P (copy text >>= rest)
  /-- A number of slots does not fit a word. -/
  overflow : P (throw (.outOfMemory .instructions))
  skip : ∀ op {body : Compile Unit}, P body → P (do
    let toEnd ← reserveJump op
    body
    patchJump toEnd)
  branch : ∀ op {consequent alternate : Compile Unit}, P consequent → P alternate → P (do
    let toAlternate ← reserveJump op
    consequent
    let toEnd ← reserveJump .jump
    patchJump toAlternate
    alternate
    patchJump toEnd)

/-- The property is kept by everything that compiled code is made of. -/
structure Structured (P : Compile Unit → Prop) : Prop extends Straight P where
  cycle : ∀ {test body : Compile Unit}, P test → P body → P (do
    let start ← position
    test
    let toEnd ← reserveJump .jumpIfFalse
    body
    emitWith .jump (.jump start)
    patchJump toEnd)
  forever : ∀ {body : Compile Unit}, P body → P (do
    let start ← position
    body
    emitWith .jump (.jump start))
  report : ∀ event, P (report event)
  escape : ∀ tree, P (escape tree)
  loop : ∀ tree {body : Compile Unit}, P body → P (loop tree body)

variable {P : Compile Unit → Prop}

/-- A property of compiling is a relation that does not look at the other assembler. -/
theorem Straight.related (parts : Straight P) : Assembler.direct.Straight fun _ step => P step where
  nothing := parts.nothing
  seq first second := parts.seq first second
  emit _ _ := parts.emit _
  named text extra _ _ := parts.named _ text extra
  copied text _ _ rest := parts.copied text rest
  overflow := parts.overflow
  skip _ body := parts.skip _ body
  branch op _ _ _ _ _ consequent alternate := parts.branch op consequent alternate

theorem Structured.related (parts : Structured P) :
    Assembler.direct.Structured fun _ step => P step where
  toStraight := parts.toStraight.related
  cycle test body := parts.cycle test body
  forever body := parts.forever body
  report := parts.report
  escape := parts.escape
  loop tree _ _ body := parts.loop tree body
  ret := parts.emit _

/-! ## Steps -/

/-- All steps of compiling have the property. -/
structure Compositional (P : {α : Type} → Compile α → Prop) : Prop where
  pure : ∀ {α : Type} (a : α), P (pure a : Compile α)
  bind : ∀ {α β : Type} {step : Compile α} {rest : α → Compile β},
    P step → (∀ a, P (rest a)) → P (step >>= rest)
  position : P position
  emit : ∀ i, P (emit i)
  patchJump : ∀ offset, P (patchJump offset)
  intern : ∀ text, P (intern text)
  copy : ∀ text, P (copy text)
  /-- A number of slots does not fit a word. -/
  overflow : P (throw (.outOfMemory .instructions) : Compile Unit)
  report : ∀ event, P (report event)
  escape : ∀ tree, P (escape tree)
  loop : ∀ tree {body : Compile Unit}, P body → P (loop tree body)

namespace Compositional

variable {P : {α : Type} → Compile α → Prop} (steps : Compositional P)

include steps

theorem reserveJump (op : Op) : P (reserveJump op) :=
  steps.bind steps.position fun offset => steps.bind (steps.emit _) fun _ => steps.pure offset

theorem structured : Structured fun step => P step where
  nothing := steps.pure ()
  seq first second := steps.bind first fun _ => second
  emit := steps.emit
  named _ text _ := steps.bind (steps.intern text) fun _ => steps.emit _
  copied text _ rest := steps.bind (steps.copy text) rest
  overflow := steps.overflow
  skip _ _ body :=
    steps.bind (steps.reserveJump _) fun toEnd => steps.bind body fun _ => steps.patchJump toEnd
  branch _ _ _ consequent alternate := by
    refine steps.bind (steps.reserveJump _) fun toAlternate => steps.bind consequent fun _ => ?_
    refine steps.bind (steps.reserveJump _) fun toEnd => ?_
    refine steps.bind (steps.patchJump toAlternate) fun _ => ?_
    exact steps.bind alternate fun _ => steps.patchJump toEnd
  cycle test body := by
    refine steps.bind steps.position fun start => steps.bind test fun _ => ?_
    refine steps.bind (steps.reserveJump _) fun toEnd => steps.bind body fun _ => ?_
    exact steps.bind (steps.emit _) fun _ => steps.patchJump toEnd
  forever body :=
    steps.bind steps.position fun start => steps.bind body fun _ => steps.emit _
  report := steps.report
  escape := steps.escape
  loop tree _ body := steps.loop tree body

end Compositional

end Compile

/-- The code of an entry point, with the return behind it, has every property that the parts of
    compiled code have. -/
theorem Source.entry_has {P : Compile Unit → Prop} (parts : Compile.Structured P)
    (source : Source) : P (do source.compile; Compile.emitOp .ret) :=
  source.entry_related parts.related

end StackScript
