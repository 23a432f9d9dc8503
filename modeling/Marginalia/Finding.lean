/-
Findings: everything a run has to complain about.

A finding has a kind, and the kind fixes its code and severity. Findings come
from four places: a file that cannot be read to the end, a marker that breaks
the grammar, notes that do not fit together, and an outline with topics that
are referred to or named but never described. In documents findings are
`diagnostics`.
-/
import Marginalia.Outline.Query
import Marginalia.Sheet

set_option autoImplicit false

namespace Marginalia

/-- How bad a finding is. -/
inductive Severity where
  | error
  | warning
deriving DecidableEq, Repr

/-- The kinds of findings. -/
inductive FindingKind where
  | extractionError
  | malformedMarker
  | mergeConflict
  | aliasCollision
  | undefinedReference
  | emptyStructuralLeaf
  | partialRun
deriving DecidableEq, Repr

namespace FindingKind

/-- The short code of a kind. -/
def code : FindingKind → String
  | .extractionError => "E001"
  | .malformedMarker => "E002"
  | .mergeConflict => "E003"
  | .aliasCollision => "E004"
  | .undefinedReference => "W001"
  | .emptyStructuralLeaf => "W002"
  | .partialRun => "W003"

/-- The severity of a kind. -/
def severity : FindingKind → Severity
  | .extractionError | .malformedMarker | .mergeConflict | .aliasCollision => .error
  | .undefinedReference | .emptyStructuralLeaf | .partialRun => .warning

/-- The name of a kind. -/
def text : FindingKind → String
  | .extractionError => "extraction error"
  | .malformedMarker => "malformed annotation"
  | .mergeConflict => "merge conflict"
  | .aliasCollision => "alias collision"
  | .undefinedReference => "undefined reference"
  | .emptyStructuralLeaf => "empty structural leaf"
  | .partialRun => "partial run"

end FindingKind

/-- A diagnostic: something to complain about, with its place and topic where it has one. -/
structure Finding where
  severity : Severity
  kind : FindingKind
  code : String
  message : String
  location : Option Position := none
  topic : Option Topic := none
  suggestion : Option String := none
deriving DecidableEq

namespace Finding

/-- A finding of a kind. -/
def ofKind (kind : FindingKind) (message : String) (location : Option Position)
    (topic : Option Topic) (suggestion : Option String) : Finding :=
  { severity := kind.severity, kind, code := kind.code, message, location, topic, suggestion }

/-- A file with an unclosed block comment. -/
def ofUnclosed (e : Unclosed) : Finding :=
  ofKind .extractionError e.message e.position none
    "Close the comment; no annotation from this file was merged"

/-- A marker that breaks the grammar. -/
def ofMalformed (m : Malformed) : Finding :=
  ofKind .malformedMarker m.reason m.position none
    "Expected @[Segment/Segment] optionally followed by \x7balias:name\x7d"

/-- Notes that do not fit together. -/
def ofIssue : Issue → Finding
  | .disagreement d =>
    let kind := d.kind.text
    ofKind .mergeConflict
      s!"{kind} content for `{d.topic.text}` differs from the canonical {kind} at {d.canonicalPosition.text}"
      d.position d.topic
      "Make every occurrence identical or turn this one into a bare reference"
  | .collision c =>
    ofKind .aliasCollision
      s!"alias `{c.nickname}` is already bound to `{c.boundTopic.text}` at {c.boundPosition.text}"
      c.position c.claimedTopic
      "Pick a different alias"

/-- A run that left out files. -/
def ofPartialRun (skipped total : Nat) : Finding :=
  ofKind .partialRun s!"run cancelled: {skipped} of {total} files were not processed" none none none

/-- A topic that is referred to, with nothing said about it or below it. -/
def undefinedReference (topic : Topic) (first : Position) : Finding :=
  let name := topic.text
  ofKind .undefinedReference s!"`{name}` is referenced but never documented" first topic
    s!"Add a block annotation for @[{name}]"

/-- A topic that is only named. -/
def emptyLeaf (topic : Topic) (mention : Option Position) : Finding :=
  ofKind .emptyStructuralLeaf s!"`{topic.text}` has no content, children or references" mention topic
    "Check the path for a typo"

/-- What is wrong with an entry of an outline. -/
def ofEntry (outline : Outline) (entry : Entry) : Option Finding :=
  if entry.content.isSome then none
  else
    match entry.referenceSites with
    | first :: _ =>
      if outline.hasContentBelow entry.topic then none
      else some (undefinedReference entry.topic first)
    | [] =>
      if entry.isLeaf then some (emptyLeaf entry.topic entry.mentionSites.head?) else none

end Finding

/-- What is wrong with an outline: first the issues it came with, then its entries in order. -/
def Outline.check (outline : Outline) (issues : List Issue) : List Finding :=
  issues.map Finding.ofIssue ++ outline.walk.filterMap (Finding.ofEntry outline)

end Marginalia
