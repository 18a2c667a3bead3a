import StackScript.Code.Instruction
import StackScript.Code.NamePool
import StackScript.Number.Format
import StackScript.Text.Layout
import StackScript.Text.Quoted

/-!
# Listings

Code as text, one instruction a line: its offset, its operation and its operands. A name that the
pool does not hold is shown by its place.
-/

namespace StackScript.Listing

/-- Offsets are aligned to this width. -/
def offsetWidth : Nat := 4

/-- Operations are aligned to this width, also where nothing follows them. -/
def mnemonicWidth : Nat := 22

/-- A name in quotes, or its place when the pool has no such name. -/
def name (names : Option NamePool) (index : Nat) : String :=
  match names.bind (·.get? index) with
  | some text => Text.quote text
  | none => "#" ++ toString index

/-- An operand as it is shown. -/
def operand (names : Option NamePool) : Operand → String
  | .count n => toString n
  | .flag create => if create then "create" else "existing"
  | .number value => Number.Style.listing.text value
  | .name index => name names index
  | .text content => Text.quote content
  | .statement tree => "<" ++ tree.kind ++ " statement>"
  | .function tree =>
    match tree.name with
    | some name => "<function " ++ name ++ ">"
    | none => "<function>"
  | .jump target => "-> " ++ toString target
  | .pending => "-> ?"
  | .misuse kind => kind.message

/-- A line without its line feed. -/
def line (names : Option NamePool) (offset : Nat) (i : Instruction) : String :=
  Text.alignRight offsetWidth (toString offset) ++ "  " ++
    Text.alignLeft mnemonicWidth i.op.mnemonic ++
    (i.operand.map (operand names)).getD "" ++
    (i.extra.map fun extra => ", " ++ operand names extra).getD ""

/-- The lines of code whose first instruction has the given offset, behind what is written
    already. -/
def write (names : Option NamePool) (shown : String) : Nat → List Instruction → String
  | _, [] => shown
  | offset, i :: rest => write names (shown ++ line names offset i ++ "\n") (offset + 1) rest

/-- The listing of code: a line for each instruction, from offset zero. -/
def render (names : Option NamePool) (code : List Instruction) : String :=
  write names "" 0 code

end StackScript.Listing
