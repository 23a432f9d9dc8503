/-
Notes: what one comment says about one topic.

A note is written in one of three forms. A declaration marks the code it
stands at, a block brings prose, a reference says only that the topic matters
here. What two notes are compared by is their content, which forgets blank
ends and takes a blank text for none.

Messages and documents call a note an annotation. There its topic is the
`path`, the name it declares the `bound_symbol` and a nickname the `alias`,
which is also how a nickname is given in a comment.
-/
import Marginalia.Position
import Marginalia.Topic

set_option autoImplicit false

namespace Marginalia

/-! ## Content -/

/-- The title, body and nickname (or alias) of a topic, as far as they are known. -/
structure Content where
  title : Option String := none
  body : Option String := none
  nickname : Option String := none
deriving DecidableEq, Repr, Inhabited

namespace Content

/-- A text without its blank ends; a blank text is none. -/
def normal (text : Option String) : Option String :=
  (text.map Text.trimmed).filter fun t => !t.isEmpty

/-- The content of three texts in their normal form. -/
def of (title body nickname : Option String) : Content :=
  ⟨normal title, normal body, normal nickname⟩

/-- Whether nothing is known. -/
def isEmpty (content : Content) : Bool :=
  content.title.isNone && content.body.isNone && content.nickname.isNone

/-- Title, then body, then nickname; an absent text comes before every other. -/
def order : Content → Content → Ordering :=
  compareLex (compareOn title) (compareLex (compareOn body) (compareOn nickname))

instance : Ord Content := ⟨order⟩

instance : Std.TransOrd Content :=
  inferInstanceAs (Std.TransCmp (compareLex _ (compareLex _ _)))

end Content

/-! ## Notes -/

/-- What a block says about its topic. A block that is not collected lends its title and nickname
and leaves no other trace. -/
structure Block where
  body : Option String
  nickname : Option String
  title : Option String
  /-- The topics linked from the body. -/
  mentions : List Topic
  collected : Bool
deriving DecidableEq

/-- How a note is written. -/
inductive NoteForm where
  /-- At a declaration, with the name it declares and the topics linked from the title. -/
  | declaration (title symbol : Option String) (mentions : List Topic)
  /-- As prose. -/
  | block (prose : Block)
  /-- As a bare marker. -/
  | reference
deriving DecidableEq

/-- The three forms by name. -/
inductive NoteKind where
  | declaration
  | block
  | reference
deriving DecidableEq, Repr

namespace NoteKind

/-- The forms in their order of precedence. -/
def rank : NoteKind → Nat
  | .declaration => 0
  | .block => 1
  | .reference => 2

instance : Ord NoteKind := ⟨compareOn rank⟩

instance : Std.TransOrd NoteKind :=
  inferInstanceAs (Std.TransCmp (compareOn rank))

/-- The name of a form. -/
def text : NoteKind → String
  | .declaration => "declaration"
  | .block => "block"
  | .reference => "reference"

end NoteKind

/-- One annotation: a topic, the place of the comment, and what the comment says. -/
structure Note where
  topic : Topic
  position : Position
  form : NoteForm
deriving DecidableEq

namespace Note

/-- The form by name. -/
def kind (note : Note) : NoteKind :=
  match note.form with
  | .declaration .. => .declaration
  | .block _ => .block
  | .reference => .reference

/-- The title as written. -/
def title (note : Note) : Option String :=
  match note.form with
  | .declaration title _ _ => title
  | .block prose => prose.title
  | .reference => none

/-- The body as written. -/
def body (note : Note) : Option String :=
  match note.form with
  | .block prose => prose.body
  | _ => none

/-- The nickname as written. -/
def nickname (note : Note) : Option String :=
  match note.form with
  | .block prose => prose.nickname
  | _ => none

/-- The name of the code marked. -/
def symbol (note : Note) : Option String :=
  match note.form with
  | .declaration _ symbol _ => symbol
  | _ => none

/-- The topics linked from the text. -/
def mentions (note : Note) : List Topic :=
  match note.form with
  | .declaration _ _ mentions => mentions
  | .block prose => prose.mentions
  | .reference => []

/-- Whether the note leaves a site in the outline. -/
def isCollected (note : Note) : Bool :=
  match note.form with
  | .block prose => prose.collected
  | _ => true

/-- What the note is compared by. A reference says nothing. -/
def content (note : Note) : Option Content :=
  match note.form with
  | .declaration title _ _ => some (.of title none none)
  | .block prose => some (.of prose.title prose.body prose.nickname)
  | .reference => none

end Note

end Marginalia
