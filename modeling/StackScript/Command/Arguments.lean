/-!
# Arguments

The command line: the command `disasm` with its options and one input, or a question for the
version. Options may stand before and after the input, a value follows its option or an equals sign,
and `--` ends the options. Nothing may be given twice.
-/

namespace StackScript.Command

/-- What `disasm` is asked to do. -/
structure Options where
  input : String
  /-- More of the log is shown. -/
  verbose : Bool := false
  /-- The input is an expression and not a program. -/
  expression : Bool := false
  /-- Only the first statement of a program is compiled. -/
  noBlock : Bool := false
  /-- Nothing may be left to the tree walker. -/
  noEscape : Bool := false
  maxInstructions : Option Nat := none
  arenaLimit : Option Nat := none
  deriving DecidableEq, Repr

/-- What the arguments ask for. -/
inductive Request where
  | version
  | disasm (options : Options)
  /-- The arguments make no sense. -/
  | misused
  deriving DecidableEq, Repr

/-- Numbers on the command line are less than `2 ^ 64`. -/
def sizeBound : Nat := 0x10000000000000000

/-- Digits, with a plus sign before them or not. -/
def readSize? (text : String) : Option Nat :=
  let digits := match text.toList with
    | '+' :: rest => rest
    | digits => digits
  if digits.isEmpty || !digits.all Char.isDigit then none
  else
    let n := digits.foldl (fun n c => 10 * n + (c.toNat - '0'.toNat)) 0
    if n < sizeBound then some n else none

/-- The options as far as they are read. -/
structure Given where
  input : Option String := none
  verbose : Bool := false
  expression : Bool := false
  noBlock : Bool := false
  noEscape : Bool := false
  maxInstructions : Option Nat := none
  arenaLimit : Option Nat := none

namespace Given

/-- Takes the input, which may not be empty. -/
def setInput? (g : Given) (text : String) : Option Given :=
  if g.input.isSome || text.isEmpty then none else some { g with input := some text }

/-- Takes the option for more of the log. -/
def setVerbose? (g : Given) : Option Given :=
  if g.verbose then none else some { g with verbose := true }

/-- Takes an option without a value. -/
def setFlag? (g : Given) : String → Option Given
  | "expression" => if g.expression then none else some { g with expression := true }
  | "no-block" => if g.noBlock then none else some { g with noBlock := true }
  | "no-escape" => if g.noEscape then none else some { g with noEscape := true }
  | "verbose" => g.setVerbose?
  | _ => none

/-- The option is followed by a value. -/
def takesValue : String → Bool
  | "max-instructions" | "arena-limit" => true
  | _ => false

/-- Takes an option with its value. -/
def setValue? (g : Given) (name value : String) : Option Given := do
  let n ← readSize? value
  match name with
  | "max-instructions" =>
    if g.maxInstructions.isSome then none else some { g with maxInstructions := some n }
  | "arena-limit" => if g.arenaLimit.isSome then none else some { g with arenaLimit := some n }
  | _ => none

/-- Takes the letters behind a single dash. -/
def setLetters? (g : Given) : List Char → Option Given
  | [] => some g
  | 'v' :: rest => do
    (← g.setVerbose?).setLetters? rest
  | _ => none

/-- What is asked for when the arguments end. -/
def finish (g : Given) : Request :=
  match g.input with
  | none => .misused
  | some input => .disasm {
      input, verbose := g.verbose, expression := g.expression, noBlock := g.noBlock,
      noEscape := g.noEscape, maxInstructions := g.maxInstructions, arenaLimit := g.arenaLimit }

end Given

/-- An argument by its form. -/
inductive Form where
  /-- The mark that ends the options. -/
  | separator
  | long (name : String) (value : Option String)
  | short (letters : List Char)
  | plain

/-- The form of an argument. -/
def Form.of (argument : String) : Form :=
  match argument.toList with
  | ['-', '-'] => .separator
  | '-' :: '-' :: rest =>
    let name := rest.takeWhile (· != '=')
    match rest.dropWhile (· != '=') with
    | _ :: value => .long (String.ofList name) (some (String.ofList value))
    | [] => .long (String.ofList name) none
  | '-' :: letter :: letters => .short (letter :: letters)
  | _ => .plain

/-- Takes arguments that are no options. -/
def takeInputs (g : Given) : List String → Option Given
  | [] => some g
  | text :: rest => do
    takeInputs (← g.setInput? text) rest

/-- Takes the arguments of `disasm`. -/
def takeOptions (g : Given) : List String → Option Given
  | [] => some g
  | argument :: rest =>
    match Form.of argument with
    | .separator => takeInputs g rest
    | .plain => do
      takeOptions (← g.setInput? argument) rest
    | .short letters => do
      takeOptions (← g.setLetters? letters) rest
    | .long name (some value) => do
      takeOptions (← g.setValue? name value) rest
    | .long name none =>
      if Given.takesValue name then
        match rest with
        | [] => none
        | value :: rest =>
          match Form.of value with
          | .plain => do
            takeOptions (← g.setValue? name value) rest
          | _ => none
      else do
        takeOptions (← g.setFlag? name) rest

/-- Takes the letters behind a single dash before the command: whether the version is asked for. -/
def takeLetters (verbose : Bool) : List Char → Option (Bool × Bool)
  | [] => some (verbose, false)
  | 'v' :: rest => if verbose then none else takeLetters true rest
  | 'V' :: _ => some (verbose, true)
  | _ => none

/-- Takes the arguments before the command, and then those of the command. More of the log may be
    asked for once in each of the two. -/
def takeCommand (verbose : Bool) : List String → Request
  | [] => .misused
  | argument :: rest =>
    match Form.of argument with
    | .plain =>
      if argument = "disasm" then
        match takeOptions {} rest with
        | some given => { given with verbose := verbose || given.verbose }.finish
        | none => .misused
      else .misused
    | .long "version" none => .version
    | .long "verbose" none => if verbose then .misused else takeCommand true rest
    | .short letters =>
      match takeLetters verbose letters with
      | some (_, true) => .version
      | some (verbose, false) => takeCommand verbose rest
      | none => .misused
    | _ => .misused

/-- What a command line asks for. -/
def Request.ofArguments (arguments : List String) : Request :=
  takeCommand false arguments

end StackScript.Command
