/-
What a run says does not depend on the order of its files.

Files are read one by one, and their sheets are sorted by path before anything
else looks at them. Paths that are all different leave the sort no choice, so
two orders of the same files give the same list of sheets, and with it the
same outline and the same findings in the same order. Nothing more is asked
of the sheets: this holds whatever the texts are, and however code is told
from declarations.

A report carries the numbers of its errors and warnings along while findings
are added. **Adding keeps them true** (`Tallied.push`), so they are the counts
of the finished list.
-/
import Marginalia.Proofs.Data.Arranged
import Marginalia.Survey
import Mathlib.Algebra.GroupWithZero.Nat

set_option autoImplicit false

namespace Marginalia

/-! ## Counts kept beside the list -/

namespace Report

/-- The numbers of errors and warnings are those of the findings. -/
structure Tallied (report : Report) : Prop where
  errors : report.errors = report.findings.countP fun f => f.severity = .error
  warnings : report.warnings = report.findings.countP fun f => f.severity = .warning

theorem Tallied.push {report : Report} (h : report.Tallied) (finding : Finding) :
    (report.push finding).Tallied := by
  unfold Report.push
  cases hs : finding.severity with
  | error => exact ⟨by simp [hs, h.errors], by simp [hs, h.warnings]⟩
  | warning => exact ⟨by simp [hs, h.errors], by simp [hs, h.warnings]⟩

theorem Tallied.extend {report : Report} (h : report.Tallied) (findings : List Finding) :
    (report.extend findings).Tallied := by
  induction findings generalizing report with
  | nil => exact h
  | cons finding findings ih => exact ih (h.push finding)

theorem annotations_push (report : Report) (finding : Finding) :
    (report.push finding).annotations = report.annotations := by
  unfold push
  split <;> rfl

theorem annotations_extend (report : Report) (findings : List Finding) :
    (report.extend findings).annotations = report.annotations := by
  induction findings generalizing report with
  | nil => rfl
  | cons finding findings ih =>
    rw [extend, List.foldl_cons, ← extend, ih, annotations_push]

end Report

/-! ## Sheets -/

namespace Sheet

variable {d : Delimiters} {heuristic : Heuristic} {path text : String}

theorem path_ofText : (ofText d heuristic path text).path = path := by
  unfold ofText ofItems
  split <;> rfl

/-- A file with an unclosed comment has no notes. -/
theorem notes_ofText_of_unclosed (h : (ofText d heuristic path text).unclosed.isSome) :
    (ofText d heuristic path text).notes = [] := by
  unfold ofText ofItems at h ⊢
  split
  · rfl
  · rename_i hnone
    rw [hnone] at h
    exact absurd h (by simp)

end Sheet

/-- The notes of a source file, with any way to tell declarations from other code. -/
def Source.sheetWith (heuristic : Source → Heuristic) (source : Source) : Sheet :=
  Sheet.ofText source.dialect.delimiters (heuristic source) source.path source.text

namespace Survey

/-! ## Two orders of the same files -/

/-- A run that is not cancelled, with any way to tell declarations from other code. -/
def runWith (heuristic : Source → Heuristic) (sources : List Source) : Survey :=
  ofSheets (sources.map (Source.sheetWith heuristic)) sources.length

/-- A run tells declarations by the dialect of each file. -/
theorem run_eq_runWith (sources : List Source) :
    run sources false = runWith (fun source => source.dialect.heuristic) sources := rfl

/-- No two files have the same path, however it is spelled. -/
def DistinctPaths (sources : List Source) : Prop :=
  sources.Pairwise fun a b => SourcePath.order a.path b.path ≠ .eq

instance (sources : List Source) : Decidable (DistinctPaths sources) :=
  inferInstanceAs (Decidable (List.Pairwise _ _))

/-- Sheets of different files are put in the same order, whatever order they come in. -/
theorem sorted_sheets_perm {sources sources' : List Source} (hperm : sources.Perm sources')
    (hpaths : DistinctPaths sources) (heuristic : Source → Heuristic) :
    ((sources.map (Source.sheetWith heuristic)).mergeSort fun a b =>
        (SourcePath.order a.path b.path).isLE)
      = (sources'.map (Source.sheetWith heuristic)).mergeSort fun a b =>
        (SourcePath.order a.path b.path).isLE := by
  have : Std.TransCmp fun a b : Sheet => SourcePath.order a.path b.path :=
    inferInstanceAs (Std.TransCmp (compareOn fun s : Sheet => SourcePath.components s.path))
  have hsorted : Arranged.Rearranged (fun a b : Sheet => SourcePath.order a.path b.path) _ _ :=
    Arranged.rearranged_sorted (hperm.map (Source.sheetWith heuristic))
  refine hsorted.eq fun a ha b hb htie => ?_
  -- sheets that tie come from files with the same path, and there is only one such file
  obtain ⟨s, hs, rfl⟩ := List.mem_map.1 (List.mem_mergeSort.1 ha)
  obtain ⟨s', hs', rfl⟩ := List.mem_map.1 (List.mem_mergeSort.1 hb)
  rw [Source.sheetWith, Source.sheetWith, Sheet.path_ofText, Sheet.path_ofText] at htie
  by_contra hne
  have hne : s ≠ s' := by
    rintro rfl
    exact hne rfl
  have hsymm : Std.Symm fun a b : Source => SourcePath.order a.path b.path ≠ .eq :=
    ⟨fun a b hab hba => hab (Std.OrientedCmp.eq_symm hba)⟩
  exact hpaths.forall hs hs' hne htie

/-- The notes of the sheets in the order of their paths. -/
theorem length_flatMap_sorted (sheets : List Sheet) :
    ((sheets.mergeSort fun a b => (SourcePath.order a.path b.path).isLE).flatMap Sheet.notes).length
      = (sheets.map fun sheet => sheet.notes.length).sum := by
  rw [List.length_flatMap]
  exact ((List.mergeSort_perm sheets _).map _).sum_nat

/-- Sheets without notes do not count. -/
private theorem sum_filter_length {sheets : List Sheet}
    (h : ∀ sheet ∈ sheets, sheet.unclosed.isSome → sheet.notes = []) :
    ((sheets.filter fun sheet => sheet.unclosed.isNone).map fun sheet => sheet.notes.length).sum
      = (sheets.map fun sheet => sheet.notes.length).sum := by
  induction sheets with
  | nil => rfl
  | cons sheet sheets ih =>
    have ih := ih fun s hs => h s (List.mem_cons_of_mem _ hs)
    cases hu : sheet.unclosed with
    | none => simp [hu, ih]
    | some e => simp [hu, ih, h sheet List.mem_cons_self (by simp [hu])]

/-- What a report says in numbers about the sheets of a run. -/
structure Sums (sheets : List Sheet) (report : Report) : Prop extends report.Tallied where
  annotations : report.annotations
    = ((sheets.filter fun sheet => sheet.unclosed.isNone).map fun sheet => sheet.notes.length).sum

theorem sums_runWith (heuristic : Source → Heuristic) (sources : List Source) :
    Sums (sources.map (Source.sheetWith heuristic)) (runWith heuristic sources).report := by
  have hnotes : ∀ sheet ∈ sources.map (Source.sheetWith heuristic),
      sheet.unclosed.isSome → sheet.notes = [] := by
    intro sheet hsheet hunclosed
    obtain ⟨source, -, rfl⟩ := List.mem_map.1 hsheet
    exact Sheet.notes_ofText_of_unclosed hunclosed
  -- nothing is skipped, so no finding about a partial run is added
  have hskipped : sources.length - (sources.map (Source.sheetWith heuristic)).length = 0 := by
    rw [List.length_map, Nat.sub_self]
  unfold runWith ofSheets
  simp only [hskipped, Nat.lt_irrefl, if_false]
  constructor
  · exact Report.Tallied.extend (Report.Tallied.extend ⟨rfl, rfl⟩ _) _
  · rw [Report.annotations_extend, Report.annotations_extend, sum_filter_length hnotes]
    exact length_flatMap_sorted _

theorem runWith_perm {sources sources' : List Source} (hperm : sources.Perm sources')
    (hpaths : DistinctPaths sources) (heuristic : Source → Heuristic) :
    runWith heuristic sources = runWith heuristic sources' := by
  unfold runWith ofSheets
  simp only [sorted_sheets_perm hperm hpaths heuristic, hperm.length_eq, List.length_map]

/-- **A run does not depend on the order of its files**, and its report counts its findings and
the notes of the files that could be read. -/
theorem run_perm {sources sources' : List Source} (hperm : sources.Perm sources')
    (hpaths : DistinctPaths sources) :
    (run sources false = run sources' false ∧
      Sums (sources.map Source.sheet) (run sources false).report) ∧
    ∀ heuristic : Source → Heuristic,
      runWith heuristic sources = runWith heuristic sources' ∧
        Sums (sources.map (Source.sheetWith heuristic)) (runWith heuristic sources).report := by
  refine ⟨⟨?_, ?_⟩, fun heuristic => ⟨?_, ?_⟩⟩
  · rw [run_eq_runWith, run_eq_runWith]
    exact runWith_perm hperm hpaths _
  · rw [run_eq_runWith]
    exact sums_runWith _ sources
  · exact runWith_perm hperm hpaths heuristic
  · exact sums_runWith heuristic sources

/-- Three files, one of them with a comment that is never closed. The first two are about one
topic and do not agree. -/
def surveyedFiles : List Source :=
  let dialect : Dialect := ⟨"c", ["c"], .of ["//"] (some ("/*", "*/")), none⟩
  [⟨"src/b.c", "int f; // @[A] says one thing", dialect⟩,
   ⟨"src/./a.c", "/* @[A] says\n another thing */", dialect⟩,
   ⟨"src/c.c", "// @[A]\n/* open", dialect⟩]

theorem run_surveyedFiles_reverse :
    surveyedFiles.Perm surveyedFiles.reverse ∧ DistinctPaths surveyedFiles ∧
      run surveyedFiles false = run surveyedFiles.reverse false ∧
      Sums (surveyedFiles.map Source.sheet) (run surveyedFiles false).report := by
  have hperm : surveyedFiles.Perm surveyedFiles.reverse := (List.reverse_perm _).symm
  have hpaths : DistinctPaths surveyedFiles := by decide
  exact ⟨hperm, hpaths, (run_perm hperm hpaths).1⟩

end Survey

end Marginalia
