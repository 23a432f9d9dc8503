/-
Which files of a directory a run looks at.
-/
import Marginalia.Failure
import Marginalia.Settings

set_option autoImplicit false

namespace Marginalia

/-- Patterns of files to take and to leave out. -/
structure Selection where
  /-- Without patterns, all files are taken. -/
  includes : Option (List Glob)
  excludes : List Glob

namespace Selection

/-- Reads patterns. -/
def globs (texts : List String) : Except Failure (List Glob) :=
  texts.mapM fun text => (Glob.parse text).mapError (.glob text)

/-- A selection by the texts of its patterns. -/
def of (includes excludes : List String) : Except Failure Selection := do
  let included ← if includes.isEmpty then pure none else some <$> globs includes
  let excluded ← globs excludes
  pure ⟨included, excluded⟩

/-- Whether a file is selected: leaving out goes before taking. -/
def selects (selection : Selection) (path : String) : Bool :=
  !selection.excludes.any (·.isMatch path)
    && selection.includes.all fun globs => globs.any (·.isMatch path)

end Selection

end Marginalia
