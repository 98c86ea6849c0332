import FxLang.Cli

/-!
# The executable

Reads the source from the disk, runs the command line on it and prints what the run says.
-/

namespace FxLang.Main

open Cli (ReadFailure)

/-- A failure of the operating system as the command line words it. -/
def readFailure : IO.Error → ReadFailure
  | .noFileOrDirectory .. => .notFound
  | .inappropriateType _ code _ => if code = 21 then .isDirectory else .notADirectory
  | .permissionDenied .. => .permissionDenied
  | .invalidArgument _ _ details =>
    if details = "name too long" then .nameTooLong else .other details
  | e => .other (toString e)

/-- Reads a source from the disk. -/
def readSource (path : String) : IO (Except ReadFailure String) := do
  try
    let bytes ← IO.FS.readBinFile path
    match String.fromUTF8? bytes with
    | some source => pure (.ok source)
    | none => pure (.error .notText)
  catch e => pure (.error (readFailure e))

end FxLang.Main

open FxLang in
/-- The program: one path in, a report and an exit code out. -/
def main (args : List String) : IO UInt32 := do
  let program ← IO.appPath
  let begun ← IO.mkRef 0
  let run ← Cli.run
    (fun path => do
      let source ← Main.readSource path
      begun.set (← IO.monoNanosNow)
      pure source)
    program.toString args
  let ended ← IO.monoNanosNow
  if run.timed then
    IO.println ("Parsed in " ++ Cli.elapsed (ended - (← begun.get)))
  IO.print (Cli.unlines run.output)
  IO.eprint (Cli.unlines run.errors)
  pure run.code
