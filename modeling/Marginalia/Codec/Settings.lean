/-
Settings and delimiters as documents.

Every field of the settings may be left out. What is written out names every
field, with nothing where a text is absent.
-/
import Marginalia.Data.Value
import Marginalia.Settings
import Marginalia.Toml.Document

set_option autoImplicit false

namespace Marginalia

/-- Characters as a list of texts. -/
def Value.chars (cs : List Char) : Value :=
  .list (cs.map fun c => .text c.toString)

/-! ## Delimiters -/

/-- Delimiters as a record. -/
def Delimiters.encode (d : Delimiters) : Value :=
  .record
    [("line_markers", .texts d.lineMarkers), ("block_start", .optText d.blockStart),
     ("block_end", .optText d.blockEnd), ("block_line_prefix", .optText d.gutter),
     ("string_quotes", .chars d.stringQuotes), ("raw_string_quotes", .chars d.rawQuotes),
     ("char_literals", .bool d.charLiterals)]

/-- Reads delimiters. -/
def Delimiters.decode (v : Value) : Option Delimiters := do
  let fields ← Fields.of?
    ["line_markers", "block_start", "block_end", "block_line_prefix", "string_quotes",
     "raw_string_quotes", "char_literals"] v
  let lineMarkers ← fields.required "line_markers" (Value.toList? Value.toText?)
  let blockStart ← fields.optional "block_start" Value.toText?
  let blockEnd ← fields.optional "block_end" Value.toText?
  let gutter ← fields.optional "block_line_prefix" Value.toText?
  let stringQuotes ← fields.orDefault "string_quotes" [] (Value.toList? Value.toChar?)
  let rawQuotes ← fields.orDefault "raw_string_quotes" [] (Value.toList? Value.toChar?)
  let charLiterals ← fields.orDefault "char_literals" false Value.toBool?
  pure { lineMarkers, blockStart, blockEnd, gutter, stringQuotes, rawQuotes, charLiterals }

/-! ## Settings -/

/-- A policy as its name. -/
def FailPolicy.text : FailPolicy → String
  | .error => "error"
  | .warning => "warning"
  | .never => "never"

/-- The policy with a name. -/
def FailPolicy.ofText? : String → Option FailPolicy
  | "error" => some .error
  | "warning" => some .warning
  | "never" => some .never
  | _ => none

/-- A text that may be absent, where the field may be left out. -/
def Fields.textOrNone (fields : Fields) (name : String) : Option (Option String) :=
  fields.orDefault name none (Value.toOption? Value.toText?)

/-- Reads which files to look at. -/
def ScanSettings.decode (v : Value) : Option ScanSettings := do
  let fields ← Fields.of? ["include", "exclude", "skip-unknown-files"] v
  let plain : ScanSettings := {}
  let includes ← fields.orDefault "include" plain.includes (Value.toList? Value.toText?)
  let excludes ← fields.orDefault "exclude" plain.excludes (Value.toList? Value.toText?)
  let skipUnknownFiles ←
    fields.orDefault "skip-unknown-files" plain.skipUnknownFiles Value.toBool?
  pure { includes, excludes, skipUnknownFiles }

/-- Reads when a run fails. -/
def FailPolicy.decode (v : Value) : Option FailPolicy := do
  let fields ← Fields.of? ["fail-on"] v
  fields.orDefault "fail-on" .error fun v => v.toName?.bind FailPolicy.ofText?

/-- Reads where links lead. -/
def LinkSettings.decode (v : Value) : Option LinkSettings := do
  let fields ← Fields.of? ["root", "format"] v
  let root ← fields.textOrNone "root"
  let format ← fields.textOrNone "format"
  pure { root, format }

/-- Reads the description of a dialect. -/
def LanguageSettings.decode (v : Value) : Option LanguageSettings := do
  let fields ← Fields.of?
    ["name", "extensions", "line-markers", "block-start", "block-end", "block-line-prefix",
     "string-quotes", "raw-string-quotes", "char-literals", "declaration"] v
  let name ← fields.required "name" Value.toText?
  let extensions ← fields.required "extensions" (Value.toList? Value.toText?)
  let lineMarkers ← fields.orDefault "line-markers" [] (Value.toList? Value.toText?)
  let blockStart ← fields.textOrNone "block-start"
  let blockEnd ← fields.textOrNone "block-end"
  let gutter ← fields.textOrNone "block-line-prefix"
  let stringQuotes ← fields.orDefault "string-quotes" none
    (Value.toOption? (Value.toList? Value.toChar?))
  let rawQuotes ← fields.orDefault "raw-string-quotes" [] (Value.toList? Value.toChar?)
  let charLiterals ← fields.orDefault "char-literals" false Value.toBool?
  let declaration ← fields.textOrNone "declaration"
  pure { name, extensions, lineMarkers, blockStart, blockEnd, gutter, stringQuotes, rawQuotes,
         charLiterals, declaration }

/-- Reads settings. -/
def Settings.decode (v : Value) : Option Settings := do
  let fields ← Fields.of? ["scan", "check", "links", "language"] v
  let scan ← fields.orDefault "scan" {} ScanSettings.decode
  let failOn ← fields.orDefault "check" .error FailPolicy.decode
  let links ← fields.orDefault "links" {} LinkSettings.decode
  let languages ← fields.orDefault "language" [] (Value.toList? LanguageSettings.decode)
  pure { scan, failOn, links, languages }

/-- The description of a dialect as a record. -/
def LanguageSettings.encode (s : LanguageSettings) : Value :=
  .record
    [("name", .text s.name), ("extensions", .texts s.extensions),
     ("line-markers", .texts s.lineMarkers), ("block-start", .optText s.blockStart),
     ("block-end", .optText s.blockEnd), ("block-line-prefix", .optText s.gutter),
     ("string-quotes", match s.stringQuotes with | some cs => .chars cs | none => .null),
     ("raw-string-quotes", .chars s.rawQuotes), ("char-literals", .bool s.charLiterals),
     ("declaration", .optText s.declaration)]

/-- Settings as a record. -/
def Settings.encode (s : Settings) : Value :=
  .record
    [("scan", .record
       [("include", .texts s.scan.includes), ("exclude", .texts s.scan.excludes),
        ("skip-unknown-files", .bool s.scan.skipUnknownFiles)]),
     ("check", .record [("fail-on", .text s.failOn.text)]),
     ("links", .record
       [("root", .optText s.links.root), ("format", .optText s.links.format)]),
     ("language", .list (s.languages.map LanguageSettings.encode))]

/-- Reads settings from the text of a document. -/
def Settings.parse (text : String) : Except Failure Settings :=
  match (Toml.parse text).bind Settings.decode with
  | some settings => .ok settings
  | none => .error .document

end Marginalia
