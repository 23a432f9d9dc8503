/-
Outlines: everything that is noted about every topic, in one place.

An outline has an entry for each topic that a note is about or links to, and
for every topic above those. Entries are kept by topic, and an entry lists
its children only by their last segment, so the hierarchy can be read off
the keys. Disagreements found while an outline is put together are issues;
they travel beside it.

The command that prints an outline is called `tree`. In its document the
entries are the `nodes` and the nicknames the `aliases`; of the issues, a
disagreement is called a `conflict` and a collision an `alias_collision`.
-/
import Marginalia.Data.Sorted
import Marginalia.Note

set_option autoImplicit false

namespace Marginalia

/-- A place that agrees with what its topic's entry says. -/
structure Site where
  position : Position
  symbol : Option String
deriving DecidableEq, Repr

/-- A place whose content differs from its topic's. -/
structure Conflict where
  kind : NoteKind
  position : Position
  content : Content
deriving DecidableEq, Repr

/-- What is known of one topic: a node of the tree. -/
structure Entry where
  topic : Topic
  /-- The last segments of the topics one level down. -/
  children : SortedSet String
  /-- The merged content. A topic without it is structural: it is only above other topics, linked
  or referred to. -/
  content : Option Content
  declarationSites : List Site
  blockSites : List Site
  referenceSites : List Position
  /-- Where notes link to the topic. -/
  mentionSites : List Position
  conflicts : List Conflict
deriving DecidableEq

namespace Entry

/-- An entry nothing is noted in. -/
def structural (topic : Topic) : Entry :=
  ⟨topic, SortedMap.empty, none, [], [], [], [], []⟩

/-- Whether there is no content. -/
def isStructural (entry : Entry) : Bool :=
  entry.content.isNone

/-- Whether there are no children. -/
def isLeaf (entry : Entry) : Bool :=
  entry.children.toList.isEmpty

/-- Whether some note disagrees. -/
def hasConflicts (entry : Entry) : Bool :=
  !entry.conflicts.isEmpty

end Entry

/-- The tree of all topics: their entries, the top-level segments, and the topics by nickname. -/
structure Outline where
  entries : SortedMap Topic Entry
  roots : SortedSet String
  nicknames : SortedMap String Topic
deriving DecidableEq, Inhabited

/-- The outline without entries. -/
def Outline.empty : Outline :=
  ⟨SortedMap.empty, SortedMap.empty, SortedMap.empty⟩

/-! ## Issues -/

/-- A note that says something else than the first one of its kind about the topic. -/
structure Disagreement where
  topic : Topic
  kind : NoteKind
  canonical : Content
  canonicalPosition : Position
  divergent : Content
  position : Position
deriving DecidableEq

/-- A nickname claimed for a topic although another topic has it. -/
structure Collision where
  nickname : String
  boundTopic : Topic
  boundPosition : Position
  claimedTopic : Topic
  position : Position
deriving DecidableEq

/-- What does not fit together in a set of notes. -/
inductive Issue where
  | disagreement (d : Disagreement)
  | collision (c : Collision)
deriving DecidableEq

end Marginalia
