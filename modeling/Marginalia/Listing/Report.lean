/-
The listing of a report: one line for each finding, a second one for its hint,
and a summary.
-/
import Marginalia.Report
import Marginalia.Styled

set_option autoImplicit false

namespace Marginalia.Listing

open Styled

/-- The severity in front of a finding. -/
def severity : Severity → Styled
  | .error => strong .red "ERROR"
  | .warning => strong .yellow "WARN"

/-- A finding with its place and code, and its hint below. -/
def finding (f : Finding) : Styled :=
  let location := match f.location with
    | some position => dimmed (position.text ++ " ")
    | none => []
  let hint := match f.suggestion with
    | some suggestion => plain "  " ++ coloured .cyan "hint:" ++ plain s!" {suggestion}\n"
    | none => []
  severity f.severity ++ plain " " ++ location ++ plain s!"- {f.message} (" ++ dimmed f.code
    ++ plain ")\n" ++ hint

/-- The counts at the end of a report. -/
def summary (report : Report) : Styled :=
  let warnings := coloured .yellow (toString report.warnings) ++ plain " warnings\n"
  plain s!"\nChecked {report.filesChecked} files, {report.annotations} annotations\n" ++
    if 0 < report.errors then
      strong .red (toString report.errors) ++ plain " errors, " ++ warnings
    else if 0 < report.warnings then
      strong .green "OK" ++ plain " " ++ warnings
    else
      strong .green "OK" ++ plain " No issues found\n"

/-- A whole report. -/
def report (r : Report) : Styled :=
  r.findings.flatMap finding ++ summary r

end Marginalia.Listing
