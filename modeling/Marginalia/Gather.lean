/-
Gathering the source files of a run.

A path that leads to a file stands for that file alone, whatever the
selection says. A path that leads to a directory stands for the selected
files below it, each known by its path from there. A file that is not text is
passed over.
-/
import Marginalia.Selection
import Marginalia.Survey
import Marginalia.Workspace

set_option autoImplicit false

namespace Marginalia

/-- What is needed to gather source files. -/
structure Gatherer where
  selection : Selection
  dialects : Dialects
  skipUnknownFiles : Bool

namespace Gatherer

/-- A gatherer for settings. -/
def of (settings : Settings) : Except Failure Gatherer := do
  let dialects ← settings.dialects
  let selection ← Selection.of settings.scan.includes settings.scan.excludes
  pure ⟨selection, dialects, settings.scan.skipUnknownFiles⟩

/-- The source file of some bytes, if it is one. -/
def load (gatherer : Gatherer) (path : String) (bytes : ByteArray) :
    Except Failure (Option Source) :=
  match gatherer.dialects.detect? path with
  | none =>
    if gatherer.skipUnknownFiles then .ok none else .error (.unsupportedFile path)
  | some dialect => .ok ((String.fromUTF8? bytes).map fun text => ⟨path, text, dialect⟩)

/-- The source files at a path, in order. -/
def gather (gatherer : Gatherer) (workspace : Workspace) (path : String) :
    Except Failure (List Source) :=
  match workspace path with
  | .file bytes => do
    let source ← gatherer.load path bytes
    pure source.toList
  | .directory files => do
    let selected := files.filter fun (name, _) => gatherer.selection.selects name
    let sorted := selected.mergeSort fun a b => (SourcePath.order a.1 b.1).isLE
    let sources ← sorted.mapM fun (name, bytes) => gatherer.load name bytes
    pure (sources.filterMap id)
  | .missing | .blocked => .error (.invalidPath path "no such file or directory")

end Gatherer

end Marginalia
