import VaultQuery.CommandLine.Run
import VaultQuery.Time.Epoch
import Std.Time.DateTime.Timestamp

/-! # The program

    Reads the files an invocation needs, runs it, and writes what the run writes. All
    decisions are made by `CommandLine.run`. -/

namespace VaultQuery.CommandLine

/-- The error codes for a path through something that is no directory; some operations report
    codes with a minus sign. -/
def notADirectory : List UInt32 := [20, -20]

/-- What is found at a path. -/
def findFile (path : String) : IO File := do
  try
    return .content (← IO.FS.readFile path)
  catch e =>
    match e with
    | .noFileOrDirectory .. => return .missing
    | .inappropriateType _ code _ =>
        return if notADirectory.contains code then .unreachable else .unreadable
    | .invalidArgument .. => return .unreachable
    | _ => return .unreadable

/-- The content of a file, if it can be read. -/
def readIfThere (path : String) : IO (Option String) := do
  match ← findFile path with
  | .content s => return some s
  | _ => return none

/-- The environment variables among some that are set. -/
def readEnvironment (names : List String) : IO (List (String × String)) :=
  names.filterMapM fun name => do
    return (← IO.getEnv name).map fun value => (name, value)

/-- The directory of the user's configuration files. -/
def userDirectory : IO String := do
  match ← IO.getEnv "XDG_CONFIG_HOME" with
  | some dir => if dir.startsWith "/" then return dir
  | none => pure ()
  return ((← IO.getEnv "HOME").getD "") ++ "/.config"

/-- The files an invocation reads. -/
def neededFiles (i : Invocation) : List String :=
  [i.vault, i.config.getD (configBeside i.vault)]

/-- The present time; a clock beyond the calendar stands still. -/
def readClock : IO Instant := do
  let t ← Std.Time.Timestamp.now
  let start : Instant :=
    ⟨⟨1970, 1, 1, by decide, by decide, by decide⟩, 0, 0, by decide, by decide, by decide⟩
  return (Instant.ofEpochNanoseconds? t.toNanosecondsSinceUnixEpoch.val).getD start

/-- The surroundings of a run with some arguments. -/
def surroundings (args : List String) : IO Surroundings := do
  let environment ← readEnvironment
    [vaultVariable, "SETS_TYPE_ATTRIBUTE", "SETS_COLLECTION_ATTRIBUTE", "SETS_COLLECTION_TYPE"]
  let paths :=
    match Invocation.ofArguments environment args with
    | .ok i => neededFiles i
    | .error _ => []
  let files ← paths.mapM fun path => do
    return (path, ← findFile path)
  let globalConfig ← readIfThere ((← userDirectory) ++ "/sets/sets.toml")
  return ⟨environment, fun path => (files.lookup path).getD .missing, globalConfig, ← readClock⟩

/-- The run of the program: its exit code, everything else being done. -/
def runProgram (args : List String) : IO UInt32 := do
  let outcome := run (← surroundings args) args
  match outcome.written with
  | some (path, content) =>
      try
        IO.FS.writeFile path content
      catch _ =>
        IO.eprintln ("Error: cannot save vault " ++ path ++ ": " ++ Failure.unreadableFile.message)
        return 1
  | none => pure ()
  IO.print outcome.output
  IO.eprint outcome.errors
  return UInt32.ofNat outcome.exit

end VaultQuery.CommandLine

def main (args : List String) : IO UInt32 := VaultQuery.CommandLine.runProgram args
