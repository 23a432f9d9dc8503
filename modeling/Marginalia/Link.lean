/-
Links from positions to a place where the sources can be read.

A template has places for the root, the path, the line and the column, which
are filled in one after the other in that order. What is filled in earlier is
part of the text in which the later ones are looked for.
-/
import Marginalia.Position
import Marginalia.Text.Cut

set_option autoImplicit false

namespace Marginalia

/-- How positions become addresses. -/
structure LinkFormat where
  root : String
  template : String
deriving DecidableEq, Repr

namespace LinkFormat

/-- The template for a plain file server. -/
def plainTemplate : String := "\x7broot\x7d/\x7bpath\x7d"

/-- The template for a repository browser. -/
def hostedTemplate : String := "\x7broot\x7d/blob/master/\x7bpath\x7d#L\x7bline\x7d"

/-- A format for a root, which loses one trailing slash. Without a template, a root that names a
known repository browser gets that browser's. -/
def of (root : String) (template : Option String) : LinkFormat :=
  let chars := root.toList
  let kept := if chars.getLast? = some '/' then chars.dropLast else chars
  let hosted := Text.contains "github".toList kept || Text.contains "gitlab".toList kept
  { root := String.ofList kept
    template := template.getD (if hosted then hostedTemplate else plainTemplate) }

/-- The places of a template and what goes there, in the order they are filled. -/
def substitutions (format : LinkFormat) (position : Position) : List (String × String) :=
  [("\x7broot\x7d", format.root),
   ("\x7bpath\x7d", SourcePath.slashed position.file),
   ("\x7bline\x7d", toString position.line),
   ("\x7bcolumn\x7d", toString position.column)]

/-- The address of a position. -/
def url (format : LinkFormat) (position : Position) : String :=
  String.ofList <|
    (format.substitutions position).foldl
      (fun text (place, value) => Text.replaceAll place.toList value.toList text)
      format.template.toList

end LinkFormat

end Marginalia
