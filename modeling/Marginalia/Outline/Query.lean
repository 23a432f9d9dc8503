/-
Questions to a finished outline.

The keys are in topic order, and in that order a topic stands right before
everything below it. So walking the entries is walking the hierarchy, and
what lies below a topic is the run of keys behind it. The command `show`
prints the occurrences of one topic.
-/
import Marginalia.Outline

set_option autoImplicit false

namespace Marginalia

/-- The ways a topic occurs at a place. -/
inductive OccurrenceKind where
  | declaration
  | block
  | reference
  | mention
deriving DecidableEq, Repr

namespace OccurrenceKind

/-- The kinds in their order at one place. -/
def rank : OccurrenceKind → Nat
  | .declaration => 0
  | .block => 1
  | .reference => 2
  | .mention => 3

/-- The name of a kind. -/
def text : OccurrenceKind → String
  | .declaration => "declaration"
  | .block => "block"
  | .reference => "reference"
  | .mention => "mention"

end OccurrenceKind

/-- A place where a topic occurs. -/
structure Occurrence where
  kind : OccurrenceKind
  position : Position
  symbol : Option String
deriving DecidableEq, Repr

/-- Occurrences by place and kind. -/
def Occurrence.order : Occurrence → Occurrence → Ordering :=
  compareLex (compareOn Occurrence.position) (compareOn fun o => o.kind.rank)

namespace Outline

/-- The entry of a topic. -/
def entry? (outline : Outline) (topic : Topic) : Option Entry :=
  outline.entries.get? topic

/-- The entry of the topic that a text names. -/
def lookup? (outline : Outline) (text : String) : Option Entry :=
  (Topic.parse text).toOption.bind outline.entry?

/-- The entries one level below a topic, by segment. -/
def children? (outline : Outline) (topic : Topic) : Option (List Entry) :=
  (outline.entry? topic).map fun e =>
    (SortedSet.elements e.children).filterMap fun segment => outline.entry? (topic.child segment)

/-- The entries at the top, by segment. -/
def rootEntries (outline : Outline) : List Entry :=
  (SortedSet.elements outline.roots).filterMap outline.lookup?

/-- All entries, each before those below it. -/
def walk (outline : Outline) : List Entry :=
  outline.entries.values

/-- The entries that satisfy a condition. -/
def find (outline : Outline) (condition : Entry → Bool) : List Entry :=
  outline.walk.filter condition

/-- The entries with a content that satisfies a condition. -/
def findByContent (outline : Outline) (condition : Content → Bool) : List Entry :=
  outline.walk.filter fun e => e.content.any condition

/-- Everything an entry knows of its places, in order. -/
def occurrencesOf (entry : Entry) : List Occurrence :=
  let sites (kind : OccurrenceKind) (sites : List Site) : List Occurrence :=
    sites.map fun s => ⟨kind, s.position, s.symbol⟩
  let positions (kind : OccurrenceKind) (positions : List Position) : List Occurrence :=
    positions.map fun p => ⟨kind, p, none⟩
  let all := sites .declaration entry.declarationSites ++ sites .block entry.blockSites
    ++ positions .reference entry.referenceSites ++ positions .mention entry.mentionSites
  all.mergeSort fun a b => (Occurrence.order a b).isLE

/-- The places where a topic occurs, in order. -/
def occurrences? (outline : Outline) (topic : Topic) : Option (List Occurrence) :=
  (outline.entry? topic).map occurrencesOf

/-- The topic a nickname stands for. -/
def resolve? (outline : Outline) (nickname : String) : Option Topic :=
  outline.nicknames.get? nickname

/-- Whether a topic strictly below this one has content: the keys from the topic on, past the first
of them, as long as they lie below it. -/
def hasContentBelow (outline : Outline) (topic : Topic) : Bool :=
  let behind := (outline.entries.toList.dropWhile fun e => compare e.1 topic == .lt).drop 1
  (behind.takeWhile fun e => topic.isAbove e.1).any fun e => e.2.content.isSome

/-- The number of entries. -/
def size (outline : Outline) : Nat :=
  outline.entries.size

/-- Whether there are no entries. -/
def isEmpty (outline : Outline) : Bool :=
  outline.entries.toList.isEmpty

end Outline

end Marginalia
