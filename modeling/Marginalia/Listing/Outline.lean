/-
The listing of an outline: each entry on a line indented by its depth, with
its nickname, title and counts, and its body below.
-/
import Marginalia.Outline.Query
import Marginalia.Styled
import Marginalia.Text.Cut

set_option autoImplicit false

namespace Marginalia.Listing

open Styled

/-- The name of an entry, in bold unless nothing is known of it. -/
def label (entry : Entry) : Styled :=
  let name := entry.topic.name
  if entry.hasConflicts then bold name ++ plain " " ++ coloured .red "(conflict)"
  else if entry.isStructural then dimmed name
  else bold name

/-- How often an entry's topic occurs in each way, where it does. -/
def counts (entry : Entry) : String :=
  let all := [(entry.declarationSites.length, "decl"), (entry.blockSites.length, "block"),
    (entry.referenceSites.length, "ref"), (entry.mentionSites.length, "mention")]
  ", ".intercalate <|
    (all.filter fun e => 0 < e.1).map fun (count, what) => s!"{count} {what}"

/-- An entry and its body. -/
def entry (e : Entry) : Styled :=
  let indent := String.ofList (List.replicate (2 * e.topic.depth) ' ')
  let nickname := match e.content.bind Content.nickname with
    | some name => plain " " ++ coloured .cyan ("\x7balias:" ++ name ++ "\x7d")
    | none => []
  let title := match e.content.bind Content.title with
    | some title => plain s!" - {title}"
    | none => []
  let sites :=
    if (counts e).isEmpty then [] else plain " " ++ dimmed ("[" ++ counts e ++ "]")
  let body := match e.content.bind Content.body with
    | some body => (Text.lines body.toList).flatMap fun line =>
        plain (indent ++ "  ") ++ dimmed "|" ++ plain (" " ++ String.ofList line ++ "\n")
    | none => []
  plain indent ++ label e ++ nickname ++ title ++ sites ++ plain "\n" ++ body

/-- A whole outline. -/
def outline (o : Outline) : Styled :=
  o.walk.flatMap entry ++ if o.isEmpty then plain "No annotations found\n" else []

end Marginalia.Listing
