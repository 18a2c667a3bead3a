import StackScript.Code.Listing
import StackScript.Code.StackCheck
import StackScript.Compile.Settings
import StackScript.Compile.Statement

/-!
# Units of code

A unit collects the code and the names of everything that is compiled into it. Each tree becomes an
entry point: code from an offset to a return. A tree that needs the tree walker leaves no code
behind; one that runs out of memory leaves what it got. Several units may copy their text into one
arena.
-/

namespace StackScript

/-- Why a source has no entry point. -/
inductive CompileError where
  | outOfMemory (region : Region)
  /-- The tree can only be evaluated by the tree walker. -/
  | needsWalker
  deriving DecidableEq, Repr

/-- The words for the error. -/
def CompileError.message : CompileError → String
  | .outOfMemory region => "out of memory while growing the " ++ region.label
  | .needsWalker => "statement requires tree-walking evaluation"

/-- What can be compiled to an entry point. -/
inductive Source where
  | expression (tree : Expression)
  /-- Statements; of several that are not taken as a block only the first is compiled. -/
  | statements (body : List Statement) (asBlock : Bool)

/-- A program is taken as a block. -/
def Source.ofProgram (p : Program) : Source :=
  .statements p.body true

/-- The word for the source in reports. -/
def Source.kind : Source → String
  | .expression _ => "expression"
  | .statements .. => "statement"

/-- The code of a source, without the return. -/
def Source.lower {ε σ : Type} (s : Assembler ε σ) : Source → EStateM ε σ Unit
  | .expression tree => tree.lower s
  | .statements [] _ => lowerBlock s []
  | .statements [only] _ => only.lower s
  | .statements body true => lowerBlock s body
  | .statements (first :: rest) false => do
    s.report (.ignoredStatements rest.length)
    first.lower s

/-- Compiles a source, without the return. -/
abbrev Source.compile (source : Source) : Compile Unit :=
  source.lower .direct

/-- A unit has neither code nor names before the first tree is compiled. -/
structure CodeUnit where
  settings : Settings := {}
  code : Option Code := none
  names : Option NamePool := none

/-- The answer to compiling a tree: the offset of the entry point or an error, what was reported,
    and the unit and the arena as they are then. -/
structure Compiled where
  result : Except CompileError Nat
  unit : CodeUnit
  arena : Arena
  events : Array Event

namespace CodeUnit

/-- The instructions of the unit. -/
def instructions (u : CodeUnit) : Array Instruction :=
  match u.code with
  | some code => code.instructions
  | none => #[]

/-- The number of instructions. -/
def length (u : CodeUnit) : Nat :=
  u.instructions.size

/-- The name at a place. -/
def name? (u : CodeUnit) (index : Nat) : Option String :=
  u.names.bind (·.get? index)

/-- The code of the unit, which is set up when it is first needed. -/
def ensureCode (u : CodeUnit) : Except Region Code :=
  match u.code with
  | some code => .ok code
  | none => Code.create u.settings.codeCapacity u.settings.maxInstructions

/-- The names of the unit, which are set up when they are first needed. -/
def ensureNames (u : CodeUnit) : Except Region NamePool :=
  match u.names with
  | some names => .ok names
  | none => NamePool.create u.settings.nameCapacity

/-- The unit with what a draft holds. -/
def keep (u : CodeUnit) (d : Draft) : CodeUnit :=
  { u with code := some d.code, names := some d.names }

/-- Compiles an entry point on the given code and names. -/
def compileOn (u : CodeUnit) (source : Source) (code : Code) (names : NamePool) (arena : Arena) :
    Compiled :=
  let start := code.length
  let draft : Draft := { code, names, arena, escapes := u.settings.allowEscape }
  match (do source.compile; Compile.emitOp .ret : Compile Unit) draft with
  | .ok () d =>
    { result := .ok start, unit := u.keep d, arena := d.arena,
      events := d.events.push (.compiled source.kind start (d.code.length - start)) }
  | .error .needsWalker d =>
    { result := .error .needsWalker, unit := u.keep { d with code := d.code.rewind start },
      arena := d.arena, events := d.events.push (.needsWalker source.kind start) }
  | .error (.outOfMemory region) d =>
    { result := .error (.outOfMemory region), unit := u.keep d, arena := d.arena,
      events := d.events }

/-- Compiles an entry point into the unit. -/
def compile (u : CodeUnit) (source : Source) (arena : Arena) : Compiled :=
  match u.ensureCode with
  | .error region => { result := .error (.outOfMemory region), unit := u, arena, events := #[] }
  | .ok code =>
    match u.ensureNames with
    | .error region =>
      { result := .error (.outOfMemory region), unit := { u with code := some code }, arena,
        events := #[] }
    | .ok names => { u with code := none, names := none }.compileOn source code names arena

/-- Checks the code of the unit from an offset. -/
def check (u : CodeUnit) (start : Nat) : Except Flaw StackReport :=
  StackCheck.run u.instructions start

/-- The code of the unit, a line for each instruction. -/
def listing (u : CodeUnit) : String :=
  Listing.render u.names u.instructions.toList

end CodeUnit

end StackScript
