import StackScript.Code.Arena
import StackScript.Code.Buffer
import StackScript.Code.NamePool

/-!
# Settings

How a unit of code is set up: the first sizes of its buffers, the limits on what it may take, and
whether a statement without code of its own may be left to the tree walker.
-/

namespace StackScript

/-- How a unit of code is set up. -/
structure Settings where
  codeCapacity : Nat := Code.defaultCapacity
  nameCapacity : Nat := NamePool.defaultCapacity
  maxInstructions : Option Nat := none
  arenaLimit : Option Nat := none
  allowEscape : Bool := true
  deriving DecidableEq, Repr

namespace Settings

/-- Sets the first capacity of the code, which is at least one. -/
def withCodeCapacity (s : Settings) (capacity : Nat) : Settings :=
  { s with codeCapacity := max capacity 1 }

/-- Sets the first capacity of the name pool, which is at least one. -/
def withNameCapacity (s : Settings) (capacity : Nat) : Settings :=
  { s with nameCapacity := max capacity 1 }

/-- Sets the limit on the number of instructions. -/
def withMaxInstructions (s : Settings) (limit : Nat) : Settings :=
  { s with maxInstructions := some limit }

/-- Sets the limit on the memory for text. -/
def withArenaLimit (s : Settings) (bytes : Nat) : Settings :=
  { s with arenaLimit := some bytes }

/-- Sets whether a statement may be left to the tree walker. -/
def withEscape (s : Settings) (allow : Bool) : Settings :=
  { s with allowEscape := allow }

/-- An arena under the limit. -/
def arena (s : Settings) : Arena :=
  { limit := s.arenaLimit }

end Settings

end StackScript
