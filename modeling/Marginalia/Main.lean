/-
The command line: looks up the files that a request needs, carries it out and
prints the outcome.
-/
import Marginalia.Command.Run

set_option autoImplicit false

namespace Marginalia.Shell

/-- The files below a directory, by their paths from there. -/
partial def filesBelow (base below : String) : IO (List (String × ByteArray)) := do
  let entries ← (System.mkFilePath [SourcePath.join base below]).readDir
  let found ← entries.toList.mapM fun entry => do
    let name := if below.isEmpty then entry.fileName else SourcePath.join below entry.fileName
    if ← entry.path.isDir then filesBelow base name
    else
      try
        let bytes ← IO.FS.readBinFile entry.path
        pure [(name, bytes)]
      catch _ => pure []
  pure found.flatten

/-- What is at a path. -/
def look (path : String) : IO Found := do
  if ← (System.mkFilePath [path]).isDir then
    return .directory (← filesBelow path "")
  try
    return .file (← IO.FS.readBinFile (System.mkFilePath [path]))
  catch
    | .inappropriateType .. => return .blocked
    | _ => return .missing

/-- A workspace that knows some paths. -/
def workspaceAt (paths : List String) : IO Workspace := do
  let known ← paths.mapM fun path => do
    let found ← look path
    pure (path, found)
  pure fun path => (known.lookup path).getD .missing

/-- What decides about colours here. -/
def terminal : IO Command.Terminal := do
  let stdout ← IO.getStdout
  pure
    { force := ← IO.getEnv "CLICOLOR_FORCE"
      refuse := ← IO.getEnv "NO_COLOR"
      allow := ← IO.getEnv "CLICOLOR"
      attended := ← stdout.isTty }

/-- Carries out a command line. -/
def outcome (words : List String) : IO Command.Outcome := do
  match Command.Request.parse words with
  | .error stop => pure stop.outcome
  | .ok request =>
    let workspace ← workspaceAt request.paths
    let terminal ← terminal
    pure (request.run workspace terminal.colours)

end Marginalia.Shell

/-- Runs the command line and exits as its outcome says. -/
def main (args : List String) : IO UInt32 := do
  let outcome ← Marginalia.Shell.outcome args
  IO.print outcome.stdout
  IO.eprint outcome.stderr
  pure outcome.exit
