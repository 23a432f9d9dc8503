/-
The listing of the places where a topic occurs, with links where a link
format is given.
-/
import Marginalia.Link
import Marginalia.Outline.Query
import Marginalia.Styled

set_option autoImplicit false

namespace Marginalia.Listing

open Styled

/-- A place, with what it declares and its address. -/
def occurrence (links : Option LinkFormat) (o : Occurrence) : Styled :=
  let symbol := match o.symbol with
    | some s => plain s!" ({s})"
    | none => []
  let url := match links with
    | some format => plain " " ++ dimmed (format.url o.position)
    | none => []
  plain "  " ++ [{ text := o.kind.text, style := { colour := Colour.yellow }, width := 11 }]
    ++ plain s!" {o.position.text}" ++ symbol ++ url ++ plain "\n"

/-- All places of a topic. -/
def occurrences (topic : Topic) (all : List Occurrence) (links : Option LinkFormat) : Styled :=
  bold topic.text ++ plain "\n" ++ all.flatMap (occurrence links)
    ++ if all.isEmpty then plain "  No occurrences\n" else []

end Marginalia.Listing
