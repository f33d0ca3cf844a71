import Reckoner.CommandLine

/-! The program: arguments and standard streams around the command line's functions. -/
namespace Reckoner.CommandLine

/-- Reads up to and including the next line feed. -/
partial def readLine (input : IO.FS.Stream) (line : Array UInt8) : IO (List UInt8) := do
  let bytes ← input.read 1
  match bytes.toList with
  | [] => return line.toList
  | byte :: _ =>
    if byte = 0x0A then return (line.push byte).toList else readLine input (line.push byte)

def write (transcript : Transcript) : IO Unit := do
  (← IO.getStderr).putStr transcript.errors
  (← IO.getStdout).putStr transcript.output
  (← IO.getStdout).flush

/-- Answers each line as soon as it has been read. -/
partial def converse (options : Options) : IO Unit := do
  write ⟨prompt, "", 0⟩
  let line ← readLine (← IO.getStdin) #[]
  if line.isEmpty then return
  match turn options line with
  | .leave output => write ⟨output, "", 0⟩
  | .goOn answer =>
    write answer
    converse options

def usage : String :=
  "usage: reckoner [-d] [-v] [--version] [--point POINT] [--group SYMBOLS] [expression]"

end Reckoner.CommandLine

open Reckoner.CommandLine in
def main (arguments : List String) : IO UInt32 := do
  match Request.ofArguments? arguments with
  | none =>
    IO.eprintln usage
    return 2
  | some (.evaluate options "") =>
    converse options
    return 0
  | some request =>
    let transcript := run request []
    write transcript
    return transcript.exitCode.toUInt32
