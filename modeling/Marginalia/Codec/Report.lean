/-
Findings and reports as documents.

A report lists its findings as `diagnostics`, in the order in which it has
them, and counts its notes as `annotations`.
-/
import Marginalia.Codec.Note
import Marginalia.Report

set_option autoImplicit false

namespace Marginalia

/-- The name of a severity. -/
def Severity.text : Severity → String
  | .error => "error"
  | .warning => "warning"

/-- Reads the name of a severity. -/
def Severity.decode (v : Value) : Option Severity :=
  v.toName?.bind fun
    | "error" => some .error
    | "warning" => some .warning
    | _ => none

/-- A kind of findings as its tag. -/
def FindingKind.tag : FindingKind → String
  | .extractionError => "extraction_error"
  | .malformedMarker => "malformed_annotation"
  | .mergeConflict => "merge_conflict"
  | .aliasCollision => "alias_collision"
  | .undefinedReference => "undefined_reference"
  | .emptyStructuralLeaf => "empty_structural_leaf"
  | .partialRun => "partial_run"

/-- Reads the tag of a kind. -/
def FindingKind.decode (v : Value) : Option FindingKind :=
  v.toName?.bind fun
    | "extraction_error" => some .extractionError
    | "malformed_annotation" => some .malformedMarker
    | "merge_conflict" => some .mergeConflict
    | "alias_collision" => some .aliasCollision
    | "undefined_reference" => some .undefinedReference
    | "empty_structural_leaf" => some .emptyStructuralLeaf
    | "partial_run" => some .partialRun
    | _ => none

/-- A finding as a record. -/
def Finding.encode (f : Finding) : Value :=
  .record <|
    [("severity", .text f.severity.text), ("kind", .text f.kind.tag), ("code", .text f.code),
     ("message", .text f.message)]
      ++ Value.optField "location" f.location Position.encode
      ++ Value.optField "path" f.topic Topic.encode
      ++ Value.optField "suggestion" f.suggestion .text

/-- Reads a finding. -/
def Finding.decode (v : Value) : Option Finding := do
  let fields ← Fields.of?
    ["severity", "kind", "code", "message", "location", "path", "suggestion"] v
  let severity ← fields.required "severity" Severity.decode
  let kind ← fields.required "kind" FindingKind.decode
  let code ← fields.required "code" Value.toText?
  let message ← fields.required "message" Value.toText?
  let location ← fields.optional "location" Position.decode
  let topic ← fields.optional "path" Topic.decode
  let suggestion ← fields.optional "suggestion" Value.toText?
  pure { severity, kind, code, message, location, topic, suggestion }

/-- A report as a record. -/
def Report.encode (r : Report) : Value :=
  .record
    [("files_checked", .nat r.filesChecked), ("annotations", .nat r.annotations),
     ("diagnostics", .list (r.findings.map Finding.encode)), ("errors", .nat r.errors),
     ("warnings", .nat r.warnings)]

/-- Reads a report. -/
def Report.decode (v : Value) : Option Report := do
  let fields ← Fields.of? ["files_checked", "annotations", "diagnostics", "errors", "warnings"] v
  let filesChecked ← fields.required "files_checked" Value.toNat?
  let annotations ← fields.required "annotations" Value.toNat?
  let findings ← fields.required "diagnostics" (Value.toList? Finding.decode)
  let errors ← fields.required "errors" Value.toNat?
  let warnings ← fields.required "warnings" Value.toNat?
  pure { filesChecked, annotations, findings, errors, warnings }

end Marginalia
