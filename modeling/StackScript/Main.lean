import StackScript.Command.Disasm

/-!
# The command line program
-/

open StackScript.Command

/-- Why reading a file failed. -/
def fileError : IO.Error → FileError
  | .noFileOrDirectory .. => .missing
  | .inappropriateType .. => .notDirectory
  | .illegalOperation .. => .isDirectory
  | error => .other (toString error)

/-- Reads the file that a request names, if it names one. -/
def readInput : Request → IO (Except FileError String)
  | .disasm options => do
    try
      return decodeText (← IO.FS.readBinFile options.input)
    catch error =>
      return .error (fileError error)
  | _ => return .error .missing

/-- Answers the command line. The log is written without times. -/
def main (arguments : List String) : IO UInt32 := do
  let request := Request.ofArguments arguments
  let input ← readInput request
  let reply := answer { read := fun _ => input } request
  IO.print reply.stdout
  for line in reply.logged do
    IO.eprintln line.message
  match reply.stderr with
  | some line => IO.eprintln line
  | none => pure ()
  if request = .misused then
    IO.eprintln "usage: kestrel [-v] disasm INPUT [OPTIONS]"
  return reply.exit.toUInt32
