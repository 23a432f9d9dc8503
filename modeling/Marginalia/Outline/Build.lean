/-
Building an outline from all notes of a run.

The notes are sorted, so that neither the order of files nor the order within
a file can show. Then the notes of each topic are merged into its entry, the
links are recorded at the entries they lead to, and at last the nicknames are
given out, each to the earliest place that claims it.
-/
import Marginalia.Outline.Merge

set_option autoImplicit false

namespace Marginalia

/-- Notes by topic, position, form and content. -/
def Note.order : Note → Note → Ordering :=
  compareLex (compareOn Note.topic) <|
    compareLex (compareOn Note.position) <|
      compareLex (compareOn Note.kind) (compareOn Note.content)

instance : Std.TransCmp Note.order :=
  inferInstanceAs (Std.TransCmp (compareLex _ (compareLex _ (compareLex _ _))))

namespace Outline

/-! ## Entries -/

/-- Puts in an entry for a topic whose parent, if it has one, is already in. -/
def attach (outline : Outline) (topic : Topic) : Outline :=
  let entries := match topic.parent? with
    | some parent =>
      outline.entries.modify parent fun e => { e with children := SortedSet.add e.children topic.name }
    | none => outline.entries
  { outline with entries := entries.insertNew topic (.structural topic) }

/-- The outline with an entry for a topic and for all topics above it. -/
def ensure (outline : Outline) (topic : Topic) : Outline :=
  if outline.entries.contains topic then outline
  else
    (topic.ancestors ++ [topic]).foldl attach
      { outline with roots := SortedSet.add outline.roots topic.root }

/-- Changes the entry of a topic, which is put in first if it is missing. -/
def update (outline : Outline) (topic : Topic) (f : Entry → Entry) : Outline :=
  let outline := outline.ensure topic
  { outline with entries := outline.entries.modify topic f }

/-! ## Building -/

/-- A nickname asked for on behalf of a topic. -/
structure Claim where
  position : Position
  topic : Topic
  nickname : String
deriving DecidableEq

/-- Earlier places first, then topics in order. -/
def Claim.order : Claim → Claim → Ordering :=
  compareLex (compareOn Claim.position)
    (compareLex (compareOn Claim.topic) (compareOn Claim.nickname))

/-- An outline in the making. -/
structure Draft where
  outline : Outline
  issues : List Issue
  claims : List Claim

/-- An entry with what the notes about its topic come to. -/
def fill (result : Merge.Result) (entry : Entry) : Entry :=
  { entry with
    content := result.content
    declarationSites := result.declarationSites
    blockSites := result.blockSites
    referenceSites := result.referenceSites
    conflicts := result.disagreements.map fun d => ⟨d.kind, d.position, d.divergent⟩ }

/-- Adds the notes about one topic. -/
def addGroup (draft : Draft) (group : List Note) : Draft :=
  match group with
  | [] => draft
  | note :: _ =>
    let result := Merge.merge group
    let claim := result.claim.map fun (nickname, position) => ⟨position, note.topic, nickname⟩
    { outline := draft.outline.update note.topic (fill result)
      issues := draft.issues ++ result.disagreements.map .disagreement
      claims := draft.claims ++ claim.toList }

/-- Records the links of a note. -/
def addMentions (outline : Outline) (note : Note) : Outline :=
  note.mentions.foldl
    (fun outline topic => outline.update topic fun e =>
      { e with mentionSites := e.mentionSites ++ [note.position] })
    outline

/-- The positions after `last` that are not the same place as the one kept before them. -/
def distinctAfter (last : Position) : List Position → List Position
  | [] => []
  | p :: positions =>
    if last.same p then distinctAfter last positions else p :: distinctAfter p positions

/-- Positions in order, each place once. -/
def distinctPlaces (positions : List Position) : List Position :=
  match positions.mergeSort fun a b => (compare a b).isLE with
  | [] => []
  | p :: positions => p :: distinctAfter p positions

/-- The outline with the links of each entry in order, each place once. -/
def settleMentions (outline : Outline) : Outline :=
  { outline with
    entries := outline.entries.mapEntries fun _ e =>
      { e with mentionSites := distinctPlaces e.mentionSites } }

/-- An entry that has lost its nickname to another topic. -/
def loseNickname (entry : Entry) : Entry :=
  { entry with content := entry.content.map fun c => { c with nickname := none } }

/-- Gives out nicknames in the order of the claims, on top of those already `bound`. -/
def bind (draft : Draft) : SortedMap String (Topic × Position) → List Claim → Outline × List Issue
  | bound, [] =>
    ({ draft.outline with nicknames := bound.mapEntries fun _ (topic, _) => topic }, draft.issues)
  | bound, claim :: claims =>
    match bound.get? claim.nickname with
    | some (boundTopic, boundPosition) =>
      let collision : Collision :=
        { nickname := claim.nickname
          boundTopic
          boundPosition
          claimedTopic := claim.topic
          position := claim.position }
      let outline := { draft.outline with
        entries := draft.outline.entries.modify claim.topic loseNickname }
      bind { draft with outline, issues := draft.issues ++ [.collision collision] } bound claims
    | none => bind draft (bound.insert claim.nickname (claim.topic, claim.position)) claims

/-- The outline of a set of notes, and what does not fit together in them. -/
def build (notes : List Note) : Outline × List Issue :=
  let sorted := notes.mergeSort fun a b => (Note.order a b).isLE
  let groups := sorted.splitBy fun a b => a.topic = b.topic
  let draft := groups.foldl addGroup ⟨Outline.empty, [], []⟩
  let outline := settleMentions (sorted.foldl addMentions draft.outline)
  bind { draft with outline } SortedMap.empty
    (draft.claims.mergeSort fun a b => (Claim.order a b).isLE)

end Outline

end Marginalia
