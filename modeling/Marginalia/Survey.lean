/-
A survey: one run over a set of source files.

Every file is read on its own, the sheets are put in the order of their
paths, and only then are their notes put together. So the outcome does not
depend on the order in which the files come.
-/
import Marginalia.Dialect
import Marginalia.Outline.Build
import Marginalia.Report

set_option autoImplicit false

namespace Marginalia

/-- A source file and its dialect. -/
structure Source where
  path : String
  text : String
  dialect : Dialect

/-- The notes of a source file. -/
def Source.sheet (source : Source) : Sheet :=
  Sheet.ofText source.dialect.delimiters source.dialect.heuristic source.path source.text

/-- The outcome of a run. -/
structure Survey where
  outline : Outline
  report : Report
deriving DecidableEq

namespace Survey

/-- The findings about a single sheet. -/
def findingsOf (sheet : Sheet) : List Finding :=
  sheet.unclosed.toList.map Finding.ofUnclosed ++ sheet.malformed.map Finding.ofMalformed

/-- Puts sheets together, which come from `total` files. -/
def ofSheets (sheets : List Sheet) (total : Nat) : Survey :=
  let sorted := sheets.mergeSort fun a b => (SourcePath.order a.path b.path).isLE
  let notes := sorted.flatMap Sheet.notes
  let (outline, issues) := Outline.build notes
  let start : Report := { filesChecked := sheets.length, annotations := notes.length }
  let skipped := total - sheets.length
  let report := (start.extend (sorted.flatMap findingsOf)).extend (outline.check issues)
  { outline
    report := if 0 < skipped then report.push (Finding.ofPartialRun skipped total) else report }

/-- Runs over source files. A run that is cancelled before it starts reads none of them. -/
def run (sources : List Source) (cancelled : Bool) : Survey :=
  ofSheets (if cancelled then [] else sources.map Source.sheet) sources.length

end Survey

end Marginalia
