/-
The notes of one file.

A file is all or nothing: if one of its block comments is never closed, what
was read before that comment is dropped, because the unclosed comment may
have swallowed or uncovered anything. The command `extract` prints a sheet;
in its document the notes are `annotations`, and the unclosed comment is the
`extraction_error`.
-/
import Marginalia.Note.Read

set_option autoImplicit false

namespace Marginalia

/-- A marker that is no note, and why. -/
structure Malformed where
  position : Position
  reason : String
deriving DecidableEq, Repr

/-- Where the marker stands, and why it is refused. -/
def Malformed.message (m : Malformed) : String :=
  s!"{m.position.text}: {m.reason}"

/-- What was read from one file. -/
structure Sheet where
  path : String
  notes : List Note := []
  malformed : List Malformed := []
  /-- The block comment that is never closed; there is nothing else then. -/
  unclosed : Option Unclosed := none
deriving DecidableEq

namespace Sheet

/-- The note a comment turns out to be. -/
def note? (heuristic : Heuristic) (comment : Comment) : Option Note :=
  match Note.read heuristic comment with
  | .note note => some note
  | _ => none

/-- The fault of a comment that should have been a note. -/
def malformed? (heuristic : Heuristic) (comment : Comment) : Option Malformed :=
  match Note.read heuristic comment with
  | .malformed fault => some ⟨comment.position, fault.message⟩
  | _ => none

/-- The unclosed comment among scanned items. -/
def unclosed? : Except Unclosed Comment → Option Unclosed
  | .error e => some e
  | .ok _ => none

/-- The sheet of scanned comments. -/
def ofItems (heuristic : Heuristic) (path : String) (items : List (Except Unclosed Comment)) :
    Sheet :=
  match items.findSome? unclosed? with
  | some e => { path, unclosed := some e }
  | none =>
    let comments := items.filterMap Except.toOption
    { path
      notes := comments.filterMap (note? heuristic)
      malformed := comments.filterMap (malformed? heuristic) }

/-- Reads the text of a file. -/
def ofText (d : Delimiters) (heuristic : Heuristic) (path text : String) : Sheet :=
  ofItems heuristic path (comments d path text)

end Sheet

end Marginalia
