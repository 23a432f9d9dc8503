/-
Outlines, issues and occurrences as documents.

The entries of an outline are written as a record keyed by the texts of their
topics, in topic order, under `nodes`; the nicknames are under `aliases`.
Reading takes the entries in any order and takes an entry's key and its own
`path` for what they say, whether they agree or not.
-/
import Marginalia.Codec.Note
import Marginalia.Link
import Marginalia.Outline.Query

set_option autoImplicit false

namespace Marginalia

/-! ## Entries -/

/-- A site as a record. -/
def Site.encode (s : Site) : Value :=
  .record <| [("position", s.position.encode)] ++ Value.optField "bound_symbol" s.symbol .text

/-- Reads a site. -/
def Site.decode (v : Value) : Option Site := do
  let fields ← Fields.of? ["position", "bound_symbol"] v
  let position ← fields.required "position" Position.decode
  let symbol ← fields.optional "bound_symbol" Value.toText?
  pure ⟨position, symbol⟩

/-- A conflict as a record. -/
def Conflict.encode (c : Conflict) : Value :=
  .record
    [("kind", c.kind.encode), ("position", c.position.encode), ("content", c.content.encode)]

/-- Reads a conflict. -/
def Conflict.decode (v : Value) : Option Conflict := do
  let fields ← Fields.of? ["kind", "position", "content"] v
  let kind ← fields.required "kind" NoteKind.decode
  let position ← fields.required "position" Position.decode
  let content ← fields.required "content" Content.decode
  pure ⟨kind, position, content⟩

/-- A set of texts as a list. -/
def SortedSet.encode (s : SortedSet String) : Value :=
  .texts (SortedSet.elements s)

/-- Reads a set of texts from a list in any order. -/
def SortedSet.decode (v : Value) : Option (SortedSet String) :=
  (v.toList? Value.toText?).map SortedSet.ofList

/-- An entry as a record. -/
def Entry.encode (e : Entry) : Value :=
  .record
    [("path", e.topic.encode),
     ("children", SortedSet.encode e.children),
     ("content", match e.content with | some c => c.encode | none => .null),
     ("declaration_sites", .list (e.declarationSites.map Site.encode)),
     ("block_sites", .list (e.blockSites.map Site.encode)),
     ("reference_sites", .list (e.referenceSites.map Position.encode)),
     ("mention_sites", .list (e.mentionSites.map Position.encode)),
     ("conflicts", .list (e.conflicts.map Conflict.encode))]

/-- Reads an entry. -/
def Entry.decode (v : Value) : Option Entry := do
  let fields ← Fields.of?
    ["path", "children", "content", "declaration_sites", "block_sites", "reference_sites",
     "mention_sites", "conflicts"] v
  let topic ← fields.required "path" Topic.decode
  let children ← fields.required "children" SortedSet.decode
  let content ← fields.optional "content" Content.decode
  let declarationSites ← fields.required "declaration_sites" (Value.toList? Site.decode)
  let blockSites ← fields.required "block_sites" (Value.toList? Site.decode)
  let referenceSites ← fields.required "reference_sites" (Value.toList? Position.decode)
  let mentionSites ← fields.required "mention_sites" (Value.toList? Position.decode)
  let conflicts ← fields.required "conflicts" (Value.toList? Conflict.decode)
  pure { topic, children, content, declarationSites, blockSites, referenceSites, mentionSites,
         conflicts }

/-! ## Outlines -/

/-- A map as a record, its keys as texts. -/
def SortedMap.encode {κ α : Type} [Ord κ] (key : κ → String) (value : α → Value)
    (map : SortedMap κ α) : Value :=
  .record (map.toList.map fun e => (key e.1, value e.2))

/-- Reads a map from a record. -/
def SortedMap.decode {κ α : Type} [Ord κ] [Std.TransOrd κ] (key : String → Option κ)
    (value : Value → Option α) : Value → Option (SortedMap κ α)
  | .record fields =>
    (fields.mapM fun (name, v) => do
      let k ← key name
      let a ← value v
      pure (k, a)).map SortedMap.ofList
  | _ => none

/-- An outline as a record. -/
def Outline.encode (o : Outline) : Value :=
  .record
    [("nodes", SortedMap.encode Topic.text Entry.encode o.entries),
     ("roots", SortedSet.encode o.roots),
     ("aliases", SortedMap.encode id Topic.encode o.nicknames)]

/-- Reads an outline. -/
def Outline.decode (v : Value) : Option Outline := do
  let fields ← Fields.of? ["nodes", "roots", "aliases"] v
  let entries ← fields.required "nodes"
    (SortedMap.decode (fun s => (Topic.parse s).toOption) Entry.decode)
  let roots ← fields.required "roots" SortedSet.decode
  let nicknames ← fields.required "aliases" (SortedMap.decode some Topic.decode)
  pure ⟨entries, roots, nicknames⟩

/-! ## Issues -/

/-- The fields of a disagreement. -/
def Disagreement.fields (d : Disagreement) : List (String × Value) :=
  [("path", d.topic.encode), ("kind", d.kind.encode), ("canonical", d.canonical.encode),
   ("canonical_position", d.canonicalPosition.encode), ("divergent", d.divergent.encode),
   ("position", d.position.encode)]

/-- Reads a disagreement. -/
def Disagreement.ofFields? (fields : Fields) : Option Disagreement := do
  let topic ← fields.required "path" Topic.decode
  let kind ← fields.required "kind" NoteKind.decode
  let canonical ← fields.required "canonical" Content.decode
  let canonicalPosition ← fields.required "canonical_position" Position.decode
  let divergent ← fields.required "divergent" Content.decode
  let position ← fields.required "position" Position.decode
  pure { topic, kind, canonical, canonicalPosition, divergent, position }

/-- The fields of a collision. -/
def Collision.fields (c : Collision) : List (String × Value) :=
  [("alias", .text c.nickname), ("bound_path", c.boundTopic.encode),
   ("bound_position", c.boundPosition.encode), ("claimed_path", c.claimedTopic.encode),
   ("position", c.position.encode)]

/-- Reads a collision. -/
def Collision.ofFields? (fields : Fields) : Option Collision := do
  let nickname ← fields.required "alias" Value.toText?
  let boundTopic ← fields.required "bound_path" Topic.decode
  let boundPosition ← fields.required "bound_position" Position.decode
  let claimedTopic ← fields.required "claimed_path" Topic.decode
  let position ← fields.required "position" Position.decode
  pure { nickname, boundTopic, boundPosition, claimedTopic, position }

/-- An issue as a record, with its type. -/
def Issue.encode : Issue → Value
  | .disagreement d => .record (("type", .text "conflict") :: d.fields)
  | .collision c => .record (("type", .text "alias_collision") :: c.fields)

/-- Reads an issue: a record with a field for its type, or a bare list that starts with it. -/
def Issue.decode (v : Value) : Option Issue := do
  let (tag, content) ← match v with
    | .record entries => do
      let tag ← (Fields.mk entries false).find? "type"
      pure (tag, v)
    | .list (tag :: items) => some (tag, Value.list items)
    | _ => none
  match ← tag.toTag? ["conflict", "alias_collision"] with
  | "conflict" =>
    let fields ← Fields.of?
      ["path", "kind", "canonical", "canonical_position", "divergent", "position"] content
    (Disagreement.ofFields? fields).map .disagreement
  | "alias_collision" =>
    let fields ← Fields.of?
      ["alias", "bound_path", "bound_position", "claimed_path", "position"] content
    (Collision.ofFields? fields).map .collision
  | _ => none

/-! ## Occurrences -/

/-- An occurrence as a record, with its address where links are made. -/
def Occurrence.encode (links : Option LinkFormat) (o : Occurrence) : Value :=
  .record <|
    [("kind", .text o.kind.text), ("position", o.position.encode)]
      ++ Value.optField "bound_symbol" o.symbol .text
      ++ Value.optField "url" (links.map fun format => format.url o.position) .text

/-- A link format as a record. -/
def LinkFormat.encode (format : LinkFormat) : Value :=
  .record [("root", .text format.root), ("template", .text format.template)]

end Marginalia
