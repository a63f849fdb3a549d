import Scheme.CommandLine.Run

/-!
# The program

Files, the terminal and the exit status. Everything that is written is decided elsewhere.
-/

open Scheme Scheme.CommandLine

/-- Writes a reply, the output before the error output. -/
def writeReply (r : Reply) : IO Unit := do
  let out ← IO.getStdout
  out.putStr r.out
  out.flush
  let err ← IO.getStderr
  err.putStr r.err
  err.flush

/-- The bytes of a file, or why there are none. One error stands for a file that is not of the type
it is used as. A file used as a folder cannot be opened, and the error names it; a folder can be
opened but not read, and the error names nothing. -/
def readFile (name : String) : IO (Except ReadFault ByteArray) := do
  try
    return .ok (← IO.FS.readBinFile (plainName name))
  catch
    | .noFileOrDirectory .. => return .error .missing
    | .permissionDenied .. => return .error .denied
    | .inappropriateType (some _) .. => return .error .notAFolder
    | .inappropriateType none .. => return .error .isFolder
    | e => throw e

/-- Prompts for lines and answers them until the session ends. -/
partial def talk (shell : Shell) : IO Unit := do
  if shell.ended then return
  writeReply { out := shell.prompt }
  let line ← (← IO.getStdin).getLine
  let (reply, shell) :=
    if line.isEmpty then shell.finish
    else shell.feed (Text.dropLineEnd (Text.unifyLineEnds line.toList))
  writeReply reply
  talk shell

def main (args : List String) : IO UInt32 := do
  match request args with
  | .ok (.start o) =>
    match o.file with
    | some name =>
      let outcome := runFile o name (← readFile name)
      writeReply outcome.reply
      return outcome.exit.toUInt32
    | none =>
      let (started, shell) := startShell o
      writeReply started
      if ← (← IO.getStdin).isTty then writeReply { out := Shell.intro ++ "\n" }
      talk shell
      return 0
  | _ =>
    let outcome := CommandLine.run {} args "" false
    writeReply outcome.reply
    return outcome.exit.toUInt32
