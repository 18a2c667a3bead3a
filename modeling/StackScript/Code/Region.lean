/-!
# Memory

The three regions that a unit of code fills, and the bound on the size of any of them.
-/

namespace StackScript

/-- What memory is needed for. -/
inductive Region where
  | instructions
  | names
  | arena
  deriving DecidableEq, Repr

/-- The word for the region in messages. -/
def Region.label : Region → String
  | .instructions => "instruction buffer"
  | .names => "string pool"
  | .arena => "arena"

/-- No room can be had for `2 ^ 62` entries. -/
def entryBound : Nat := 0x4000000000000000

/-- Counts of arguments and places of names are less than `2 ^ 32`. -/
def wordBound : Nat := 0x100000000

/-- What compiling reports as it goes. -/
inductive Event where
  | grewCode (before after : Nat)
  | grewNames (before after : Nat)
  | compiled (kind : String) (start emitted : Nat)
  | needsWalker (kind : String) (start : Nat)
  | ignoredStatements (count : Nat)
  | escapedLoop (kind : String) (start discarded : Nat)
  deriving DecidableEq, Repr

/-- How much an event matters. -/
inductive Event.Level where
  | trace
  | debug
  | warn
  deriving DecidableEq, Repr

/-- Growth matters least, and only statements that are left out are a warning. -/
def Event.level : Event → Event.Level
  | .grewCode .. | .grewNames .. => .trace
  | .compiled .. | .needsWalker .. | .escapedLoop .. => .debug
  | .ignoredStatements _ => .warn

/-- The words for the event in the log. -/
def Event.message : Event → String
  | .grewCode .. => "grew instruction buffer"
  | .grewNames .. => "grew string pool"
  | .compiled .. => "compiled entry point"
  | .needsWalker .. => "entry point needs the tree walker"
  | .ignoredStatements _ => "compiling only the first of several statements"
  | .escapedLoop .. => "loop needs the tree walker, escaping it whole"

end StackScript
