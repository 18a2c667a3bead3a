/-!
# Colours

Text between the codes that switch a colour or a weight on and off on a terminal.
-/

namespace StackScript.Command

/-- Text between a code that switches something on and one that switches it off. -/
def between (on off : Nat) (text : String) : String :=
  "\x1b[" ++ toString on ++ "m" ++ text ++ "\x1b[" ++ toString off ++ "m"

/-- Heavy text; the code behind it resets everything. -/
def bold : String → String := between 1 0
/-- Faint text; the code behind it resets everything. -/
def dimmed : String → String := between 2 0
/-- Text in red. -/
def red : String → String := between 31 39
/-- Text in green. -/
def green : String → String := between 32 39
/-- Text in yellow. -/
def yellow : String → String := between 33 39
/-- Text in cyan. -/
def cyan : String → String := between 36 39

end StackScript.Command
