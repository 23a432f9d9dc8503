/-
Reading a note from a comment.

A comment is a note if it starts, after white space, with the marker `@[`.
What the note becomes is decided in order: text on further lines makes a
block; otherwise code that is a declaration makes a declaration; otherwise a
bare marker is a reference and anything else is a block again. Attributes are
for blocks, so they are refused on the other two.
-/
import Marginalia.Comment.Scan
import Marginalia.Note
import Marginalia.Note.Attributes
import Marginalia.Note.Prose

set_option autoImplicit false

namespace Marginalia

/-- Tells declarations from other code, and names what they declare. -/
structure Heuristic where
  isDeclaration : String → Bool
  symbolName : String → Option String

/-- Why a comment that starts with a marker is no note. -/
inductive NoteFault where
  /-- The marker has no `]` on its line. -/
  | unclosedMarker
  /-- What the marker names is no topic. -/
  | badTopic (text : String) (error : TopicError)
  /-- The attributes break their rules. -/
  | attributes (fault : AttributeFault)
  /-- There are attributes on a declaration. -/
  | attributesOnDeclaration
  /-- There are attributes and nothing else behind code. -/
  | attributesOnReference
deriving DecidableEq, Repr

/-- The wording of a refusal. -/
def NoteFault.message : NoteFault → String
  | .unclosedMarker => "unterminated path marker, expected `]`"
  | .badTopic text error => s!"invalid path `{text}`: {error.message}"
  | .attributes fault => fault.message
  | .attributesOnDeclaration => "attributes are only allowed on block annotations"
  | .attributesOnReference => "attributes are not allowed on a reference marker"

/-- What a comment turns out to be. -/
inductive Reading where
  | note (note : Note)
  /-- A comment like any other. -/
  | other
  /-- A marker that breaks the grammar. -/
  | malformed (fault : NoteFault)
deriving DecidableEq

namespace Note

/-- The code a note without further lines would stand at. -/
def decorated (comment : Comment) : Option String :=
  if comment.attached then comment.code else comment.followingCode

/-- A block with this body. One that is not collected keeps its attributes only. -/
def blockForm (body : Option String) (a : Attributes) : NoteForm :=
  let kept := body.filter fun b => !a.doNotCollect && !b.isEmpty
  .block
    { body := kept
      nickname := a.nickname
      title := a.title
      mentions := (kept.map Prose.mentions).getD []
      collected := !a.doNotCollect }

/-- The form of a note with this text on the marker's line and these lines below it. -/
def formOf (comment : Comment) (heuristic : Heuristic) (a : Attributes) (inline : List Char)
    (below : Option (List Char)) : Except NoteFault NoteForm :=
  let inlineText := if inline.isEmpty then none else some (String.ofList inline)
  match below.filter fun rest => !Text.allBlank rest with
  | some rest => .ok (blockForm (some (String.ofList (Prose.dedent inline rest))) a)
  | none =>
    match (decorated comment).filter heuristic.isDeclaration with
    | some code =>
      if !a.isEmpty then .error .attributesOnDeclaration
      else
        let mentions := (inlineText.map Prose.mentions).getD []
        .ok (.declaration inlineText (heuristic.symbolName code) mentions)
    | none =>
      if inline.isEmpty && a.isEmpty then .ok .reference
      else if inline.isEmpty && comment.attached then .error .attributesOnReference
      else .ok (blockForm inlineText a)

/-- The note behind an opened marker: its topic, then its attributes, then its text. -/
def readMarker (comment : Comment) (heuristic : Heuristic) (text : List Char) :
    Except NoteFault Note := do
  let (markerLine, below) := match Text.cutAt ['\n'] text with
    | some (first, rest) => (first, some rest)
    | none => (text, none)
  match Text.cutAt [']'] markerLine with
  | none => .error .unclosedMarker
  | some (inside, behind) =>
    let name := String.ofList inside
    let topic ← (Topic.parse name).mapError (.badTopic name)
    let (a, remainder) ← (Attributes.read behind).mapError .attributes
    let form ← formOf comment heuristic a (Text.trim remainder) below
    pure ⟨topic, comment.position, form⟩

/-- Reads a comment. -/
def read (heuristic : Heuristic) (comment : Comment) : Reading :=
  match Text.after? ['@', '['] (Text.trimStart comment.text.toList) with
  | none => .other
  | some text =>
    match readMarker comment heuristic text with
    | .ok note => .note note
    | .error fault => .malformed fault

end Note

end Marginalia
