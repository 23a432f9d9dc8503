/-
The text of a block comment, from the lines between its delimiters.

A block comment may be decorated: its first line starts with the gutter (as
in `/**`) and every further line that is not blank carries the gutter after
its indentation. Then the gutter is no part of the text. The decision is made
once for all further lines, so that a single bulleted line in a plain comment
keeps its bullet.
-/
import Marginalia.Text.Blank
import Marginalia.Text.Cut

set_option autoImplicit false

namespace Marginalia.Gutter

/-- A line without a gutter at its very start. -/
def strip (gutter line : List Char) : List Char :=
  (Text.after? gutter line).getD line

/-- Whether a further line fits a decorated comment: it is blank, or has the gutter after its
indentation. -/
def fits (gutter line : List Char) : Bool :=
  Text.allBlank line || Text.startsWith gutter (Text.trimStart line)

/-- The lines of a comment without their decoration. -/
def undecorated (gutter : Option (List Char)) : List (List Char) → List (List Char)
  | [] => []
  | first :: others =>
    match gutter with
    | none => first :: others
    | some g =>
      if !Text.startsWith g first then first :: others
      else if others.all (fits g) then
        strip g first :: others.map fun line => strip g (Text.trimStart line)
      else strip g first :: others

/-- The text of a block comment with the given lines. -/
def textOf (gutter : Option (List Char)) (lines : List (List Char)) : List Char :=
  Text.joined '\n' (undecorated gutter lines)

end Marginalia.Gutter
