/-
Reports: the findings of a run in order, with their counts.

The counts of errors and warnings are kept beside the list. They count
severities as the findings state them, so a report read from elsewhere counts
on from whatever it says. The command `check` prints a report.
-/
import Marginalia.Finding

set_option autoImplicit false

namespace Marginalia

/-- Which findings make a run fail. -/
inductive FailPolicy where
  | error
  | warning
  | never
deriving DecidableEq, Repr, Inhabited

/-- The outcome of a run. -/
structure Report where
  filesChecked : Nat := 0
  annotations : Nat := 0
  findings : List Finding := []
  errors : Nat := 0
  warnings : Nat := 0
deriving DecidableEq, Inhabited

namespace Report

/-- Adds a finding. -/
def push (report : Report) (finding : Finding) : Report :=
  match finding.severity with
  | .error =>
    { report with errors := report.errors + 1, findings := report.findings ++ [finding] }
  | .warning =>
    { report with warnings := report.warnings + 1, findings := report.findings ++ [finding] }

/-- Adds findings in order. -/
def extend (report : Report) (findings : List Finding) : Report :=
  findings.foldl push report

/-- Whether there is no error. -/
def passed (report : Report) : Bool :=
  report.errors = 0

/-- Whether the run fails under a policy. -/
def fails (report : Report) : FailPolicy → Bool
  | .error => 0 < report.errors
  | .warning => 0 < report.errors + report.warnings
  | .never => false

/-- The number of findings of a kind. -/
def count (report : Report) (kind : FindingKind) : Nat :=
  report.findings.countP fun f => f.kind = kind

end Report

end Marginalia
