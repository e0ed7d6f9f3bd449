import Wireframe.Check

/-!
# Command line

Checks one file, prints the report, and fails if the project is refused.
-/

namespace Wireframe

/-- The reason for a failed file operation. -/
def fileError : IO.Error → FileError
  | .noFileOrDirectory .. => .notFound
  | .inappropriateType _ code _ => if code = 20 then .notDirectory else .isDirectory
  | e => .other (toString e)

/-- A file operation whose failure is a value. -/
def attempt {α : Type} (action : IO α) : IO (Except FileError α) := do
  try return .ok (← action)
  catch e => return .error (fileError e)

/-- The files of the system. -/
def systemFiles : FileAccess IO where
  occupied path := do
    match ← attempt (IO.FS.Handle.mk path .read) with
    | .error .notFound | .error .notDirectory => return false
    | _ => return true
  read path := do
    match ← attempt (IO.FS.readBinFile path) with
    | .error e => return .error e
    | .ok bytes =>
      match String.fromUTF8? bytes with
      | some text => return .ok text
      | none => return .error .invalidText
  write path content := attempt (IO.FS.writeFile path content)

/-- The settings file of the user. -/
def userConfigPath : IO String := do
  let directory ← match ← IO.getEnv "XDG_CONFIG_HOME" with
    | some directory => pure directory
    | none => pure (((← IO.getEnv "HOME").getD "") ++ "/.config")
  return directory ++ "/wireloom/config.toml"

/-- How the program is used. -/
def usage : String :=
  "Usage: wireloom [--config FILE] [--format human|json] [--source-map FILE]\n" ++
    "                [--deny-warnings] [--strict] [--log-level LEVEL] INPUT\n"

/-- Print a report or a failure, and tell the exit status. -/
def conclude : Except CheckError Report → IO UInt32
  | .error e => do
    for notice in e.notices do
      IO.eprintln notice.render
    return 1
  | .ok report => do
    match report.output with
    | .json text => IO.print text
    | .notices notices =>
      for notice in notices do
        IO.println notice.render
    if report.failed then
      IO.eprintln s!"{report.errors} error(s), {report.warnings} warning(s)"
      return 1
    return 0

end Wireframe

open Wireframe

/-- Check the file that the words name. -/
def main (words : List String) : IO UInt32 := do
  match Arguments.ofWords words with
  | .ok args => conclude (← check systemFiles (← userConfigPath) args Config.ofText?)
  | .error .helpRequested =>
    IO.print usage
    return 0
  | .error .versionRequested =>
    IO.println "wireloom 0.1.0"
    return 0
  | .error _ =>
    IO.eprint usage
    return 2
