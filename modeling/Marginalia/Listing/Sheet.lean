/-
The listing of one file: its notes with what they say, and the markers that
break the grammar.
-/
import Marginalia.Sheet
import Marginalia.Styled

set_option autoImplicit false

namespace Marginalia.Listing

open Styled

/-- A line about a note, where there is something to say. -/
def detail (name : String) (value : Option String) : Styled :=
  match value with
  | some v => plain s!"      {name}: {v}\n"
  | none => []

/-- A note and what it says. -/
def note (n : Note) : Styled :=
  let body := n.body.map fun b => s!"{(Text.lines b.toList).length} lines"
  let mentions :=
    if n.mentions.isEmpty then none else some (", ".intercalate (n.mentions.map Topic.text))
  plain "    " ++ coloured .yellow n.kind.text ++ plain " " ++ coloured .cyan n.topic.text
    ++ plain s!" (line {n.position.line})\n"
    ++ detail "symbol" n.symbol ++ detail "title" n.title ++ detail "alias" n.nickname
    ++ (if n.isCollected then [] else plain "      not collected\n")
    ++ detail "body" body ++ detail "mentions" mentions

/-- A marker that breaks the grammar. -/
def malformed (m : Malformed) : Styled :=
  plain "  " ++ coloured .red "MALFORMED" ++ plain s!" line {m.position.line}: {m.reason}\n"

/-- A whole sheet. -/
def sheet (s : Sheet) : Styled :=
  bold s.path ++ plain "\n" ++
    match s.unclosed with
    | some e => plain "  " ++ strong .red "ERROR" ++ plain s!" {e.message}\n"
    | none =>
      plain s!"\n  Annotations ({s.notes.length}):\n" ++ s.notes.flatMap note
        ++ s.malformed.flatMap malformed

end Marginalia.Listing
