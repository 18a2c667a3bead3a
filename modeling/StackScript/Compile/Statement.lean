import StackScript.Compile.Expression

/-!
# Code for statements

The code of a statement leaves its completion value on the stack. A loop keeps the completion value
of its last round below the value that it tests.
-/

namespace StackScript

open Compile

section Lowering

variable {ε σ : Type} (s : Assembler ε σ)

/-- Sets the declared names that have a first value. The others are left to the walker's
    hoisting. -/
def lowerDeclarators : List (Declarator Expression) → EStateM ε σ Unit
  | [] => s.emitOp .pushUndefined
  | ⟨_, none⟩ :: rest => lowerDeclarators rest
  | ⟨name, some init⟩ :: rest => do
    init.lower s
    s.emitName .storeVar name
    lowerDeclarators rest

/-- What stands first in the head of a `for` loop. -/
def LoopHead.lower : LoopHead Expression → EStateM ε σ Unit
  | .declaration declarators => lowerDeclarators s declarators
  | .expression value => value.lower s

/-- The value of an optional part is dropped. -/
def lowerDropped : Option Expression → EStateM ε σ Unit
  | none => return
  | some value => do
    value.lower s
    s.emitOp .pop

/-- The rounds of a `for` loop, with a test or without one. -/
def lowerRounds (test update : Option Expression) (body : EStateM ε σ Unit) : EStateM ε σ Unit := do
  s.emitOp .pushUndefined
  let start ← s.position
  match test with
  | some test => do
    test.lower s
    let toEnd ← s.reserveJump .jumpIfFalse
    s.emitOp .pop
    body
    lowerDropped s update
    s.jumpBack .jump start
    s.patchJump toEnd
  | none => do
    s.emitOp .pop
    body
    lowerDropped s update
    s.jumpBack .jump start

/-- A `for` loop: what stands first in its head, and then the rounds. -/
def lowerFor (init : Option (LoopHead Expression)) (test update : Option Expression)
    (body : EStateM ε σ Unit) : EStateM ε σ Unit := do
  match init with
  | none => pure ()
  | some head => do
    head.lower s
    s.emitOp .pop
  lowerRounds s test update body

mutual

/-- The code of a statement. One without code of its own is left to the tree walker. -/
def Statement.lower : Statement → EStateM ε σ Unit
  | .block body => lowerBlock body
  | .expression value => value.lower s
  | .declaration declarators => lowerDeclarators s declarators
  | .ifElse test consequent alternate => do
    test.lower s
    let toAlternate ← s.reserveJump .jumpIfFalse
    consequent.lower
    let toEnd ← s.reserveJump .jump
    s.patchJump toAlternate
    lowerAlternate alternate
    s.patchJump toEnd
  | .whileLoop test body => s.loop (.whileLoop test body) do
    s.emitOp .pushUndefined
    let start ← s.position
    test.lower s
    let toEnd ← s.reserveJump .jumpIfFalse
    s.emitOp .pop
    body.lower
    s.jumpBack .jump start
    s.patchJump toEnd
  | .doWhile body test => s.loop (.doWhile body test) do
    let start ← s.position
    body.lower
    test.lower s
    let toEnd ← s.reserveJump .jumpIfFalse
    s.emitOp .pop
    s.jumpBack .jump start
    s.patchJump toEnd
  | .forLoop init test update body =>
    s.loop (.forLoop init test update body) (lowerFor s init test update body.lower)
  | .empty => s.emitOp .pushUndefined
  | tree => s.escape tree

/-- The completion value of the last statement; the others are dropped. -/
def lowerBlock : List Statement → EStateM ε σ Unit
  | [] => s.emitOp .pushUndefined
  | [only] => only.lower
  | first :: next :: rest => do
    first.lower
    s.emitOp .pop
    lowerBlock (next :: rest)

/-- The branch of an `if` that need not be there. -/
def lowerAlternate : Option Statement → EStateM ε σ Unit
  | some alternate => alternate.lower
  | none => s.emitOp .pushUndefined

end

end Lowering

/-! ## The code in a draft -/

/-- Compiles a declaration. -/
abbrev compileDeclarators (declarators : List (Declarator Expression)) : Compile Unit :=
  lowerDeclarators .direct declarators

/-- Compiles what stands first in the head of a `for` loop. -/
abbrev LoopHead.compile (head : LoopHead Expression) : Compile Unit :=
  head.lower .direct

/-- Compiles an optional part whose value is dropped. -/
abbrev compileDropped (value : Option Expression) : Compile Unit :=
  lowerDropped .direct value

/-- Compiles a statement. -/
abbrev Statement.compile (tree : Statement) : Compile Unit :=
  tree.lower .direct

/-- Compiles statements of which only the last completion value is kept. -/
abbrev compileBlock (body : List Statement) : Compile Unit :=
  lowerBlock .direct body

/-- Compiles the branch of an `if` that need not be there. -/
abbrev compileAlternate (alternate : Option Statement) : Compile Unit :=
  lowerAlternate .direct alternate

end StackScript
