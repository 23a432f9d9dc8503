/-
A file with an unclosed comment says nothing to the rest of a run.

That such a comment is never closed comes out only at the end of its file,
when notes and faulty markers in front of it have long been read. They must
not get into the outline: a single note can change which note is canonical,
and with it conflicts, nicknames and warnings about files that have nothing to
do with this one. So two runs are compared here, one with the file and one
without it, and **all that differs is one finding**, at the opener that is
left open.

Two things make this go through. The sheet of the file is bare (`sheetWith_eq`),
and sorting the sheets leaves the order of the others alone wherever the bare
one comes in (`Arranged.sorted_around`). Nothing is asked of the paths of the
files, not even that they differ.
-/
import Marginalia.Proofs.Comment.Refinement
import Marginalia.Proofs.Survey

set_option autoImplicit false

namespace Marginalia

namespace Report

theorem extend_eq (report : Report) (findings : List Finding) :
    report.extend findings =
      { report with
        findings := report.findings ++ findings
        errors := report.errors + findings.countP fun f => f.severity = .error
        warnings := report.warnings + findings.countP fun f => f.severity = .warning } := by
  induction findings generalizing report with
  | nil => simp [extend]
  | cons finding findings ih =>
    rw [extend, List.foldl_cons, ← extend, ih, push]
    cases hs : finding.severity with
    | error => simp [hs, Nat.add_assoc, Nat.add_comm 1]
    | warning => simp [hs, Nat.add_assoc, Nat.add_comm 1]

end Report

/-! ## The sheet of the file -/

namespace Source

/-- The text ends inside a block comment whose opener stands at `start`. What is inside a comment
is for the automaton to say, which reads the text once and never looks for a closer. -/
def EndsInside (source : Source) (start : Position) : Prop :=
  ∃ closer lines current,
    (Automaton.atEnd source.dialect.delimiters source.path source.text).mode
      = .block start closer lines current

variable {source : Source} {start : Position}

theorem EndsInside.unique (h : source.EndsInside start) {other : Position}
    (hother : source.EndsInside other) : other = start := by
  obtain ⟨_, _, _, hmode⟩ := h
  obtain ⟨_, _, _, hmode'⟩ := hother
  rw [hmode] at hmode'
  injection hmode' with hstart
  exact hstart.symm

theorem findSome?_unclosed (h : source.EndsInside start) :
    (comments source.dialect.delimiters source.path source.text).findSome? Sheet.unclosed?
      = some ⟨start⟩ := by
  have hmem : .error ⟨start⟩ ∈ comments source.dialect.delimiters source.path source.text :=
    Automaton.error_mem_comments_iff.2 h
  have hsome : ((comments source.dialect.delimiters source.path source.text).findSome?
      Sheet.unclosed?).isSome := by
    rw [List.findSome?_isSome_iff]
    exact ⟨_, hmem, rfl⟩
  -- whichever error is met first, the text ends inside its comment, and so in this one
  obtain ⟨e, he⟩ := Option.isSome_iff_exists.1 hsome
  obtain ⟨item, hitem, hunclosed⟩ := List.exists_of_findSome?_eq_some he
  cases item with
  | ok comment => simp [Sheet.unclosed?] at hunclosed
  | error e' =>
    obtain rfl : e' = e := Option.some.inj hunclosed
    have hstart : e'.position = start := h.unique (Automaton.error_mem_comments_iff.1 hitem)
    rw [he, ← hstart]

/-- **The sheet is bare.** Whatever was read in front of the comment is gone. -/
theorem sheetWith_eq (h : source.EndsInside start) (heuristic : Source → Heuristic) :
    source.sheetWith heuristic = { path := source.path, unclosed := some ⟨start⟩ } := by
  rw [sheetWith, Sheet.ofText, Sheet.ofItems, findSome?_unclosed h]

end Source

/-! ## Two runs -/

namespace Survey

/-- A second run that differs from a first by a comment left open at `start`. The outline is the
same, so nothing that the second run may have read besides can be seen in it; the findings are
the same in the same order, but for one that the second run has more. -/
structure Isolates (start : Position) (first second : Survey) : Prop where
  outline : second.outline = first.outline
  annotations : second.report.annotations = first.report.annotations
  filesChecked : second.report.filesChecked = first.report.filesChecked + 1
  errors : second.report.errors = first.report.errors + 1
  warnings : second.report.warnings = first.report.warnings
  findings : ∃ front back found,
    first.report.findings = front ++ back ∧ second.report.findings = front ++ found :: back ∧
      found.kind = .extractionError ∧ found.location = some start ∧ found.severity = .error

/-- What a run comes to, once its files have been read: their notes and the findings about single
files are all it goes on with. -/
def ofNotes (files : Nat) (notes : List Note) (findings : List Finding) : Survey where
  outline := (Outline.build notes).1
  report := (({ filesChecked := files, annotations := notes.length } : Report).extend
    findings).extend ((Outline.build notes).1.check (Outline.build notes).2)

/-- The sheets of a run in the order of their paths. -/
def inPathOrder (sheets : List Sheet) : List Sheet :=
  sheets.mergeSort fun a b => (SourcePath.order a.path b.path).isLE

theorem ofSheets_length (sheets : List Sheet) :
    ofSheets sheets sheets.length =
      ofNotes sheets.length ((inPathOrder sheets).flatMap Sheet.notes)
        ((inPathOrder sheets).flatMap findingsOf) := by
  unfold ofSheets ofNotes inPathOrder
  simp only [Nat.sub_self, Nat.lt_irrefl, if_false]

theorem isolates_ofNotes (files : Nat) (notes : List Note) (front back : List Finding)
    (start : Position) :
    Isolates start (ofNotes files notes (front ++ back))
      (ofNotes (files + 1) notes (front ++ Finding.ofUnclosed ⟨start⟩ :: back)) := by
  have herror : (Finding.ofUnclosed ⟨start⟩).severity = .error := rfl
  unfold ofNotes
  simp only [Report.extend_eq, List.nil_append, Nat.zero_add]
  refine ⟨rfl, rfl, rfl, ?_, ?_, ?_⟩
  · simp only [List.countP_append, List.countP_cons, herror, decide_true, if_true]
    omega
  · simp [herror]
  · refine ⟨front, back ++ (Outline.build notes).1.check (Outline.build notes).2,
      Finding.ofUnclosed ⟨start⟩, ?_, ?_, rfl, rfl, rfl⟩
    · rw [List.append_assoc]
    · rw [List.append_assoc, List.cons_append]

theorem isolates_ofSheets {sheet : Sheet} {start : Position} (hnotes : sheet.notes = [])
    (hmalformed : sheet.malformed = []) (hunclosed : sheet.unclosed = some ⟨start⟩)
    (before after : List Sheet) :
    Isolates start (ofSheets (before ++ after) (before ++ after).length)
      (ofSheets (before ++ sheet :: after) (before ++ sheet :: after).length) := by
  have : Std.TransCmp fun a b : Sheet => SourcePath.order a.path b.path :=
    inferInstanceAs (Std.TransCmp (compareOn fun s : Sheet => SourcePath.components s.path))
  obtain ⟨front, back, hwith, hwithout⟩ :=
    Arranged.sorted_around (fun a b : Sheet => SourcePath.order a.path b.path) sheet before after
  have hfindings : findingsOf sheet = [Finding.ofUnclosed ⟨start⟩] := by
    rw [findingsOf, hunclosed, hmalformed]
    rfl
  have hlength : (before ++ sheet :: after).length = (before ++ after).length + 1 := by
    simp only [List.length_append, List.length_cons]
    omega
  rw [ofSheets_length, ofSheets_length, hlength, inPathOrder, inPathOrder, hwith, hwithout]
  simp only [List.flatMap_append, List.flatMap_cons, hnotes, hfindings, List.nil_append,
    List.singleton_append]
  exact isolates_ofNotes _ _ _ _ start

/-- A file that ends inside a comment is isolated, however declarations are told. -/
theorem isolates_runWith (heuristic : Source → Heuristic) (before after : List Source)
    {source : Source} {start : Position} (h : source.EndsInside start) :
    Isolates start (runWith heuristic (before ++ after))
      (runWith heuristic (before ++ source :: after)) := by
  have hbare := Source.sheetWith_eq h heuristic
  have hnotes : (source.sheetWith heuristic).notes = [] := by rw [hbare]
  have hmalformed : (source.sheetWith heuristic).malformed = [] := by rw [hbare]
  have hunclosed : (source.sheetWith heuristic).unclosed = some ⟨start⟩ := by rw [hbare]
  have hisolates := isolates_ofSheets hnotes hmalformed hunclosed
    (before.map (Source.sheetWith heuristic)) (after.map (Source.sheetWith heuristic))
  rw [← List.map_cons (f := Source.sheetWith heuristic), ← List.map_append, ← List.map_append,
    List.length_map, List.length_map] at hisolates
  exact hisolates

/-- **A file that ends inside a block comment is isolated**, wherever it stands among the others:
the run differs from the run without it by one file checked and by one error, which is found at
the opener that is left open. -/
theorem run_isolates (before after : List Source) {source : Source} {start : Position}
    (h : source.EndsInside start) :
    Isolates start (run (before ++ after) false) (run (before ++ source :: after) false) ∧
      ∀ heuristic : Source → Heuristic,
        Isolates start (runWith heuristic (before ++ after))
          (runWith heuristic (before ++ source :: after)) := by
  constructor
  · rw [run_eq_runWith, run_eq_runWith]
    exact isolates_runWith _ before after h
  · intro heuristic
    exact isolates_runWith heuristic before after h

/-- A file with a note and a faulty marker in front of a comment that is never closed. Its note
would be the first about its topic. -/
def brokenFile : Source :=
  ⟨"a.c", "int f; // @[A] first\n// @[A//B]\n x /* @[A] open",
    ⟨"c", ["c"], .of ["//"] (some ("/*", "*/")), none⟩⟩

/-- Files before and after it that agree on what they say of that topic. -/
def soundFiles : List Source × List Source :=
  ([⟨"b.c", "/* @[A]{alias:N}\n says this */", brokenFile.dialect⟩],
   [⟨"c.c", "// @[A]\n/* @[A]{alias:N}\n says this */", brokenFile.dialect⟩])

theorem run_isolates_brokenFile :
    brokenFile.EndsInside ⟨"a.c", 3, 4⟩ ∧
      Isolates ⟨"a.c", 3, 4⟩ (run (soundFiles.1 ++ soundFiles.2) false)
        (run (soundFiles.1 ++ brokenFile :: soundFiles.2) false) := by
  have h : brokenFile.EndsInside ⟨"a.c", 3, 4⟩ :=
    ⟨['*', '/'], [" @[A] open".toList], [], by decide +kernel⟩
  exact ⟨h, (run_isolates soundFiles.1 soundFiles.2 h).1⟩

end Survey

end Marginalia
