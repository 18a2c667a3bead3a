import StackScript.Compile.Settings

/-!
# The log

What the command writes down while it works. Only warnings are shown unless more is asked for. On
the error channel each line also has the time, which is left out here.
-/

namespace StackScript.Command

/-- A line of the log. -/
inductive LogLine where
  /-- Compiling begins: how the unit is set up, and where the tree comes from. -/
  | begins (settings : Settings) (input : String)
  /-- What compiling reported. -/
  | reported (event : Event)
  deriving DecidableEq, Repr

namespace LogLine

/-- How much the line matters. -/
def level : LogLine → Event.Level
  | .begins .. => .debug
  | .reported event => event.level

/-- The words of the line. -/
def message : LogLine → String
  | .begins .. => "compiling"
  | .reported event => event.message

/-- The line is shown when the environment does not say which lines it wants: warnings always, and
    growth never. -/
def isShown (verbose : Bool) (line : LogLine) : Bool :=
  match line.level with
  | .warn => true
  | .debug => verbose
  | .trace => false

end LogLine

end StackScript.Command
