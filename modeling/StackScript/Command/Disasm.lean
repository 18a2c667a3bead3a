import StackScript.Command.Arguments
import StackScript.Command.Colour
import StackScript.Command.Log
import StackScript.Compile.CodeUnit
import StackScript.Text.Layout
import StackScript.Tree.Reader

/-!
# The command

Reads a tree from a file, compiles it, and prints its listing and what the stack check found out.
What the command finds around it, the files and the wish for other lines of the log, it is given.
-/

namespace StackScript.Command

/-- Why a file cannot be read. -/
inductive FileError where
  | missing
  | isDirectory
  | notDirectory
  | notText
  | other (message : String)

/-- The words for the error. -/
def FileError.message : FileError → String
  | .missing => "No such file or directory (os error 2)"
  | .isDirectory => "Is a directory (os error 21)"
  | .notDirectory => "Not a directory (os error 20)"
  | .notText => "stream did not contain valid UTF-8"
  | .other message => message

/-- Why the command fails. -/
inductive Failure where
  | unreadable (path : String) (error : FileError)
  | notProgram (path : String)
  | notExpression (path : String)
  | compilation (error : CompileError)
  | check (flaw : Flaw)

/-- The words for the failure. -/
def Failure.message : Failure → String
  | .unreadable path error => "failed to read '" ++ path ++ "': " ++ error.message
  | .notProgram path => "'" ++ path ++ "' is not a JSON program"
  | .notExpression path => "'" ++ path ++ "' is not a JSON expression"
  | .compilation error => "compilation failed: " ++ error.message
  | .check flaw => "emitted bytecode failed verification: " ++ flaw.message

/-- What the command finds around it. -/
structure Environment where
  read : String → Except FileError String
  /-- The lines of the log that are wanted, if the environment says so. -/
  wanted : Option (LogLine → Bool) := none

/-- What a command has printed and logged, and whether it failed then. -/
structure Output where
  shown : String := ""
  logged : List LogLine := []
  failure : Option Failure := none

/-- At most this many arrays and objects may be open in a file. -/
def nestingLimit : Nat := 127

/-- How the unit is set up. -/
def Options.settings (o : Options) : Settings :=
  { allowEscape := !o.noEscape, maxInstructions := o.maxInstructions, arenaLimit := o.arenaLimit }

/-- The tree in a text. -/
def Options.source (o : Options) (text : String) : Except Failure Source :=
  if o.expression then
    match Expression.reader.text (some nestingLimit) text with
    | .ok tree => .ok (.expression tree)
    | .error _ => .error (.notExpression o.input)
  else
    match Program.reader.text (some nestingLimit) text with
    | .ok program => .ok (.statements program.body !o.noBlock)
    | .error _ => .error (.notProgram o.input)

/-- A line of a listing in colours. A line in which there is no gap is left as it is. -/
def colourLine (line : List Char) : String :=
  match Text.cutAt? [' ', ' '] (Text.trimLeft line) with
  | none => String.ofList line
  | some (offset, rest) =>
    let rest := Text.trimRight rest
    let (mnemonic, operands) := (Text.cutAt? [' '] rest).getD (rest, [])
    dimmed (Text.alignRight Listing.offsetWidth (String.ofList offset)) ++ "  " ++
      cyan (Text.alignLeft Listing.mnemonicWidth (String.ofList mnemonic)) ++
      String.ofList (Text.trimLeft operands)

/-- A listing in colours. -/
def colourListing (listing : String) : String :=
  (Text.lines listing.toList).foldl (fun shown line => shown ++ colourLine line ++ "\n") ""

/-- What is printed in place of a listing when the tree walker is needed. -/
def walkerNote : String :=
  bold (yellow "note:") ++ " the input needs the tree-walking evaluator\n"

/-- The line behind the listing. -/
def summary (length : Nat) (report : StackReport) : String :=
  bold (green "ok:") ++ " " ++ toString length ++ " instructions, max stack depth " ++
    toString report.maxDepth ++ ", " ++ toString report.reachable ++ " reachable\n"

/-- Compiles and shows a tree. -/
def Options.show (o : Options) (source : Source) : Output :=
  let compiled := { settings := o.settings : CodeUnit }.compile source o.settings.arena
  let logged := .begins o.settings o.input :: compiled.events.toList.map .reported
  match compiled.result with
  | .error .needsWalker => { shown := walkerNote, logged }
  | .error error => { logged, failure := some (.compilation error) }
  | .ok start =>
    let listing := colourListing compiled.unit.listing
    match compiled.unit.check start with
    | .ok report => { shown := listing ++ summary compiled.unit.length report, logged }
    | .error flaw => { shown := listing, logged, failure := some (.check flaw) }

/-- Carries out `disasm`. -/
def Options.run (o : Options) (read : String → Except FileError String) : Output :=
  match read o.input with
  | .error error => { failure := some (.unreadable o.input error) }
  | .ok text =>
    match o.source text with
    | .error failure => { failure := some failure }
    | .ok source => o.show source

/-- The answer to a command line: the exit code, and what is written to the two channels. -/
structure Answer where
  exit : Nat
  stdout : String := ""
  /-- The lines of the log, which come first on the error channel. -/
  logged : List LogLine := []
  /-- The error, which comes last on the error channel. -/
  stderr : Option String := none

/-- What is printed when the version is asked for. -/
def versionLine : String := "kestrel 0.1.0\n"

/-- The line for a failure. -/
def errorLine (failure : Failure) : String :=
  bold (red "Error") ++ ": " ++ failure.message

/-- Carries out what the arguments ask for. -/
def answer (env : Environment) : Request → Answer
  | .misused => { exit := 2 }
  | .version => { exit := 0, stdout := versionLine }
  | .disasm options =>
    let output := options.run env.read
    let logged := output.logged.filter (env.wanted.getD (LogLine.isShown options.verbose))
    match output.failure with
    | none => { exit := 0, stdout := output.shown, logged }
    | some failure =>
      { exit := 1, stdout := output.shown, logged, stderr := some (errorLine failure) }

/-- The text of a file's bytes. -/
def decodeText (bytes : ByteArray) : Except FileError String :=
  match String.fromUTF8? bytes with
  | some text => .ok text
  | none => .error .notText

/-- A directory that holds files and nothing else. -/
structure Folder where
  files : List (String × ByteArray)

/-- The steps of a path; empty ones and those that stay where they are count only at its end. -/
def pathSteps (path : String) : List (List Char) :=
  let (first, rest) := Text.pieces '/' path.toList
  (first :: rest).filter fun step => step ≠ [] ∧ step ≠ ['.']

/-- The path asks for a directory, whatever it leads to. -/
def asksDirectory (path : String) : Bool :=
  let (first, rest) := Text.pieces '/' path.toList
  let last := rest.getLast?.getD first
  last = [] || last = ['.']

/-- Reads a file by a path that starts in the folder. Of what lies outside only the directories
    above are known. -/
def Folder.read (folder : Folder) (path : String) : Except FileError String :=
  let find (step : List Char) : Option ByteArray :=
    if path.startsWith "/" then none else folder.files.lookup (String.ofList step)
  match pathSteps path with
  | [] => .error .isDirectory
  | first :: rest =>
    match find first with
    | some bytes =>
      if rest = [] && !asksDirectory path then decodeText bytes else .error .notDirectory
    | none =>
      if (first :: rest).all (· = ['.', '.']) then .error .isDirectory else .error .missing

end StackScript.Command
