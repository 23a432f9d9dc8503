/-
Settings: which files a run looks at, when it fails, where links lead, and
further dialects.

Everything has a default, so a run without settings is a run with the empty
document. A dialect from the settings takes the place of a built-in one of
the same name.
-/
import Marginalia.Dialect.Builtin
import Marginalia.Failure
import Marginalia.Link
import Marginalia.Report

set_option autoImplicit false

namespace Marginalia

/-- Which files a run looks at. -/
structure ScanSettings where
  /-- The patterns of files to take; without any, all files are taken. -/
  includes : List String := []
  /-- The patterns of files to leave out. -/
  excludes : List String := ["**/.git/**", "**/target/**", "**/node_modules/**"]
  /-- Whether files that no dialect handles are passed over. -/
  skipUnknownFiles : Bool := true
deriving DecidableEq, Repr, Inhabited

/-- Where links lead. -/
structure LinkSettings where
  root : Option String := none
  format : Option String := none
deriving DecidableEq, Repr, Inhabited

/-- The link format, if there is a root. -/
def LinkSettings.linkFormat? (links : LinkSettings) : Option LinkFormat :=
  links.root.map fun root => LinkFormat.of root links.format

/-- A dialect as the settings describe it. -/
structure LanguageSettings where
  name : String
  extensions : List String
  lineMarkers : List String := []
  blockStart : Option String := none
  blockEnd : Option String := none
  gutter : Option String := none
  /-- Double quotes where none are given. -/
  stringQuotes : Option (List Char) := none
  rawQuotes : List Char := []
  charLiterals : Bool := false
  declaration : Option String := none
deriving DecidableEq, Repr

namespace LanguageSettings

/-- The opener and closer of block comments; one without the other is a failure. -/
def block (s : LanguageSettings) : Except Failure (Option (String × String)) :=
  match s.blockStart, s.blockEnd with
  | some opener, some closer => .ok (some (opener, closer))
  | none, none => .ok none
  | _, _ => .error (.settings s!"language `{s.name}` must set both block-start and block-end")

/-- The dialect described. There has to be some kind of comment. -/
def dialect (s : LanguageSettings) : Except Failure Dialect := do
  let block ← s.block
  if s.lineMarkers.isEmpty && block.isNone then
    throw (.settings s!"language `{s.name}` defines no comment markers")
  let plain := Delimiters.of s.lineMarkers block
  let delimiters := { plain with
    gutter := s.gutter
    stringQuotes := s.stringQuotes.getD plain.stringQuotes
    rawQuotes := s.rawQuotes
    charLiterals := s.charLiterals }
  let extensions := s.extensions.map fun e => String.ofList (e.toList.dropWhile (· = '.'))
  (Dialect.of s.name extensions delimiters s.declaration).mapError .pattern

end LanguageSettings

/-- The settings of a run. -/
structure Settings where
  scan : ScanSettings := {}
  failOn : FailPolicy := .error
  links : LinkSettings := {}
  languages : List LanguageSettings := []
deriving DecidableEq, Repr, Inhabited

/-- The built-in dialects and those described, in order. -/
def Settings.dialects (settings : Settings) : Except Failure Dialects := do
  let builtin ← Dialects.builtin.mapError Failure.pattern
  settings.languages.foldlM (fun dialects language => do
    let dialect ← language.dialect
    pure (dialects.register dialect)) builtin

end Marginalia
