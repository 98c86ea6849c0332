import FxLang.Grammar.Function
import FxLang.Report

/-!
# The command line

The program takes one path, reads the source there, and prints its diagnostics. How a source is read
is a parameter, so the same definition runs on a disk and on a tree of files in memory.

The exit code is 0 for a source without errors, 1 for one with errors, and 2 if there was no source
to look at.
-/

namespace FxLang.Cli

/-- Why a source could not be read. -/
inductive ReadFailure where
  | notFound
  | isDirectory
  /-- A path goes on behind something that is no directory. -/
  | notADirectory
  | nameTooLong
  | permissionDenied
  /-- The bytes are not valid UTF-8. -/
  | notText
  | other (description : String)
deriving DecidableEq, Repr

/-- The failure in words. -/
def ReadFailure.message : ReadFailure → String
  | .notFound => "No such file or directory (os error 2)"
  | .isDirectory => "Is a directory (os error 21)"
  | .notADirectory => "Not a directory (os error 20)"
  | .nameTooLong => "File name too long (os error 36)"
  | .permissionDenied => "Permission denied (os error 13)"
  | .notText => "stream did not contain valid UTF-8"
  | .other description => description

/-- What a run prints and how it ends. -/
structure Run where
  code : UInt32
  /-- A source was parsed; the time this took is printed in front of the output. -/
  timed : Bool
  /-- Lines for standard output. -/
  output : List String
  /-- Lines for standard error. -/
  errors : List String
deriving DecidableEq, Repr

/-- Lines as a text in which each of them ends with a newline. -/
def unlines (lines : List String) : String :=
  String.join (lines.map (· ++ "\n"))

/-- The parts of a path, apart from empty ones and `.`. -/
def pathParts (path : String) : List String :=
  ((Text.split '/' path.toList).map String.ofList).filter fun part => part ≠ "" && part ≠ "."

/-- The name that stands for a path in positions: its last part, or the whole path if that names no
entry of a directory. -/
def label (path : String) : String :=
  match (pathParts path).getLast? with
  | some name => if name = ".." then path else name
  | none => path

/-- The run on wrong arguments. -/
def usage (program : String) : Run :=
  { code := 2, timed := false, output := [], errors := ["Usage: " ++ program ++ " <file.fx>"] }

/-- The run on a path that cannot be read. -/
def unreadable (path : String) (failure : ReadFailure) : Run :=
  { code := 2, timed := false, output := [],
    errors := ["Failed to read " ++ path ++ ": " ++ failure.message] }

/-- The run on a source. -/
def check (path source : String) : Run :=
  let parsed := Program.ofSource (label path) source
  let reports := parsed.diagnostics.flatMap (·.report source)
  match parsed.outcome with
  | .ok program =>
    if parsed.diagnostics.isEmpty then
      { code := 0, timed := true, errors := [],
        output := [toString program.functions.length ++ " function(s), no errors"] }
    else
      { code := 1, timed := true, errors := [],
        output := reports ++ [toString parsed.diagnostics.length ++ " error(s)"] }
  | .error e => { code := 1, timed := true, errors := [], output := reports ++ e.report source }

/-- The run of a program on its arguments, given how to read the source at a path. -/
def run {m : Type → Type} [Monad m] (readSource : String → m (Except ReadFailure String))
    (program : String) : List String → m Run
  | [path] => do
    match ← readSource path with
    | .ok source => pure (check path source)
    | .error failure => pure (unreadable path failure)
  | _ => pure (usage program)

/-! ## Elapsed time -/

/-- A count of small units as a decimal of the large unit that holds `10 ^ places` of them. -/
def decimal (count places : Nat) : String :=
  let unit := Nat.pow 10 places
  let digits := (toString (count % unit)).toList
  let padded := List.replicate (places - digits.length) '0' ++ digits
  let fraction := (padded.reverse.dropWhile (· = '0')).reverse
  toString (count / unit) ++ if fraction.isEmpty then "" else "." ++ String.ofList fraction

/-- A time in nanoseconds, in the largest unit of which there is at least one. -/
def elapsed (nanoseconds : Nat) : String :=
  if Nat.pow 10 9 ≤ nanoseconds then decimal nanoseconds 9 ++ "s"
  else if Nat.pow 10 6 ≤ nanoseconds then decimal nanoseconds 6 ++ "ms"
  else if Nat.pow 10 3 ≤ nanoseconds then decimal nanoseconds 3 ++ "µs"
  else toString nanoseconds ++ "ns"

end FxLang.Cli
