import StackScript.Command.Disasm
import StackScript.Proofs.Tree.RoundTrip
import StackScript.Proofs.Unit.History

/-!
# How the command ends

A tree that was read is compiled into a unit of its own. Whatever the options are, there are three
ways in which that can end, and each of them is told apart from the others by what is printed. That
the code which is printed does not pass the stack check is none of them.
-/

namespace StackScript.Command

/-! ## The texts -/

namespace Options

variable {o : Options} {source : Source} {text : String}

/-- What comes of compiling a tree as the options say. -/
def compiled (o : Options) (source : Source) : Compiled :=
  ({ settings := o.settings } : CodeUnit).compile source o.settings.arena

/-- What is logged while a tree is compiled. -/
def lines (o : Options) (source : Source) : List LogLine :=
  .begins o.settings o.input :: (o.compiled source).events.toList.map .reported

/-- The lines of the log that are written down. -/
def logged (o : Options) (env : Environment) (source : Source) : List LogLine :=
  (o.lines source).filter (env.wanted.getD (LogLine.isShown o.verbose))

end Options

variable {o : Options} {env : Environment} {text : String} {source : Source}

end StackScript.Command
