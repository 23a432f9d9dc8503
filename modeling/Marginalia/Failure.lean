/-
What can make a whole command fail. Anything wrong with a single comment or a
single file is a finding and no failure.
-/
import Marginalia.Glob.Parse
import Marginalia.Pattern.Parse

set_option autoImplicit false

namespace Marginalia

/-- Why a command cannot be carried out. -/
inductive Failure where
  /-- A file that has to be read cannot be. -/
  | unreadable (path reason : String)
  /-- No dialect handles a file, and such files are not to be skipped. -/
  | unsupportedFile (path : String)
  /-- A text is no path of the kind that is asked for. -/
  | invalidPath (path reason : String)
  /-- The settings contradict themselves. -/
  | settings (message : String)
  /-- A text is no glob pattern. -/
  | glob (text : String) (fault : Glob.Fault)
  /-- A text is no declaration pattern. -/
  | pattern (fault : Pattern.Fault)
  /-- A text is no settings document. -/
  | document
deriving DecidableEq, Repr

/-- The wording of a failure. -/
def Failure.message : Failure → String
  | .unreadable path reason => s!"Failed to read file {path}: {reason}"
  | .unsupportedFile path => s!"Unsupported file type: {path}"
  | .invalidPath path reason => s!"Invalid annotation path `{path}`: {reason}"
  | .settings message => s!"Invalid configuration: {message}"
  | .glob text fault =>
    "Invalid glob pattern: error parsing glob '" ++ text ++ "': " ++ fault.message
  | .pattern _ => "Invalid declaration pattern"
  | .document => "TOML parse error"

end Marginalia
