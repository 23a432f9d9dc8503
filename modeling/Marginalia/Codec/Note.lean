/-
Notes, their parts and the sheet of a file as documents.

A topic is written as its text. A note is one record: its topic, its position
and the fields of its form side by side, told apart by `kind`. Fields that
would be empty are left out, and a block is taken to be collected unless it
says otherwise. Writing and reading stand next to each other for each type.
-/
import Marginalia.Data.Value
import Marginalia.Sheet

set_option autoImplicit false

namespace Marginalia

/-- The name behind a tag, which is given as the name or as its place among the names. -/
def Value.toTag? (names : List String) : Value → Option String
  | .text s => some s
  | .int (.ofNat n) => names[n]?
  | _ => none

/-! ## Topics and positions -/

/-- A topic as its text. -/
def Topic.encode (topic : Topic) : Value :=
  .text topic.text

/-- Reads a topic from its text. -/
def Topic.decode (v : Value) : Option Topic :=
  v.toText?.bind fun s => (Topic.parse s).toOption

/-- A position as a record. -/
def Position.encode (p : Position) : Value :=
  .record [("file", .text p.file), ("line", .nat p.line), ("column", .nat p.column)]

/-- Reads a position. -/
def Position.decode (v : Value) : Option Position := do
  let fields ← Fields.of? ["file", "line", "column"] v
  let file ← fields.required "file" Value.toText?
  let line ← fields.required "line" Value.toNat?
  let column ← fields.required "column" Value.toNat?
  pure ⟨file, line, column⟩

/-! ## Content -/

/-- Content as a record of what is known. -/
def Content.encode (c : Content) : Value :=
  .record <|
    Value.optField "title" c.title .text ++ Value.optField "body" c.body .text
      ++ Value.optField "alias" c.nickname .text

/-- Reads content. -/
def Content.decode (v : Value) : Option Content := do
  let fields ← Fields.of? ["title", "body", "alias"] v
  let title ← fields.optional "title" Value.toText?
  let body ← fields.optional "body" Value.toText?
  let nickname ← fields.optional "alias" Value.toText?
  pure ⟨title, body, nickname⟩

/-! ## Notes -/

/-- A form of notes as its name. -/
def NoteKind.encode (kind : NoteKind) : Value :=
  .text kind.text

/-- The form with a name. -/
def NoteKind.ofText? : String → Option NoteKind
  | "declaration" => some .declaration
  | "block" => some .block
  | "reference" => some .reference
  | _ => none

/-- Reads the name of a form. -/
def NoteKind.decode (v : Value) : Option NoteKind :=
  v.toName?.bind NoteKind.ofText?

/-- Topics as a field that is left out where there are none. -/
def Note.mentionsField (mentions : List Topic) : List (String × Value) :=
  if mentions.isEmpty then [] else [("mentions", .list (mentions.map Topic.encode))]

/-- The fields of a form. -/
def NoteForm.fields : NoteForm → List (String × Value)
  | .declaration title symbol mentions =>
    [("kind", .text "declaration"), ("title", .optText title), ("bound_symbol", .optText symbol)]
      ++ Note.mentionsField mentions
  | .block b =>
    [("kind", .text "block"), ("body", .optText b.body), ("alias", .optText b.nickname)]
      ++ Value.optField "title" b.title .text ++ Note.mentionsField b.mentions
      ++ if b.collected then [] else [("collected", .bool false)]
  | .reference => [("kind", .text "reference")]

/-- Reads a form from the fields of its note. -/
def NoteForm.ofFields? (fields : Fields) : Option NoteForm := do
  let tag ← fields.required "kind" (Value.toTag? ["declaration", "block", "reference"])
  match ← NoteKind.ofText? tag with
  | .declaration =>
    let title ← fields.optional "title" Value.toText?
    let symbol ← fields.optional "bound_symbol" Value.toText?
    let mentions ← fields.orDefault "mentions" [] (Value.toList? Topic.decode)
    pure (.declaration title symbol mentions)
  | .block =>
    let body ← fields.optional "body" Value.toText?
    let nickname ← fields.optional "alias" Value.toText?
    let title ← fields.optional "title" Value.toText?
    let mentions ← fields.orDefault "mentions" [] (Value.toList? Topic.decode)
    let collected ← fields.orDefault "collected" true Value.toBool?
    pure (.block { body, nickname, title, mentions, collected })
  | .reference => pure .reference

/-- A note as one record. -/
def Note.encode (note : Note) : Value :=
  .record <|
    [("path", note.topic.encode), ("position", note.position.encode)] ++ note.form.fields

/-- Reads a note. -/
def Note.decode : Value → Option Note
  | .record entries => do
    let fields : Fields := ⟨entries, false⟩
    let topic ← fields.required "path" Topic.decode
    let position ← fields.required "position" Position.decode
    let form ← NoteForm.ofFields? fields
    pure ⟨topic, position, form⟩
  | _ => none

/-! ## Sheets -/

/-- An unclosed comment as a record. -/
def Unclosed.encode (e : Unclosed) : Value :=
  .record [("kind", .text "unterminated_comment"), ("position", e.position.encode)]

/-- A marker that breaks the grammar as a record. -/
def Malformed.encode (m : Malformed) : Value :=
  .record [("position", m.position.encode), ("reason", .text m.reason)]

/-- A sheet as a record. -/
def Sheet.encode (s : Sheet) : Value :=
  .record <|
    [("path", .text s.path), ("annotations", .list (s.notes.map Note.encode)),
     ("malformed", .list (s.malformed.map Malformed.encode))]
      ++ Value.optField "extraction_error" s.unclosed Unclosed.encode

end Marginalia
