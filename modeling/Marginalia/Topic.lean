/-
Topics: the slash-separated names that notes are written about.

A topic is a non-empty list of segments. Reading one from text insists on
more, that no segment is empty or holds white space; `child` does not, since
it only spells out where an entry would stand.

Topics are ordered segment by segment, which is not the order of their texts:
`a/b` comes before `a-b` although `-` sorts before `/`. Under this order a
topic comes right before everything below it, and that is what the walks over
an outline rely on.

Messages and documents call a topic an annotation path: its field is `path`,
and the refusals below speak of paths and path segments.
-/
import Marginalia.Text.Blank
import Marginalia.Text.Cut

set_option autoImplicit false

namespace Marginalia

/-- The name of a concept, or annotation path: a non-empty list of segments, outermost first. -/
structure Topic where
  segments : List String
  nonempty : segments ≠ []
deriving DecidableEq

/-- Why a text or a list of segments names no topic. -/
inductive TopicError where
  /-- There is no segment at all. -/
  | empty
  /-- The segment with this index, counted from zero, has no characters. -/
  | emptySegment (index : Nat)
  /-- This segment has white space in it. -/
  | whitespace (segment : String)
deriving DecidableEq, Repr

/-- The wording of a refusal. -/
def TopicError.message : TopicError → String
  | .empty => "empty path"
  | .emptySegment index => s!"empty path segment at position {index}"
  | .whitespace segment => s!"whitespace inside path segment `{segment}`"

namespace Topic

/-! ## Order -/

instance : Ord Topic := ⟨compareOn segments⟩

instance : Std.TransOrd Topic :=
  inferInstanceAs (Std.TransCmp (compareOn segments))

instance : Std.LawfulEqOrd Topic where
  eq_of_compare {a b} h := by
    obtain ⟨s, hs⟩ := a
    obtain ⟨t, ht⟩ := b
    have he : compare s t = .eq := h
    simp_all

/-! ## Reading and writing -/

/-- The first segment that is empty or has white space in it, as a refusal. -/
def firstFault : Nat → List String → Option TopicError
  | _, [] => none
  | index, segment :: segments =>
    if segment.isEmpty then some (.emptySegment index)
    else if segment.toList.any Text.isBlank then some (.whitespace segment)
    else firstFault (index + 1) segments

/-- The topic with the given segments. -/
def ofSegments (segments : List String) : Except TopicError Topic :=
  if h : segments = [] then
    .error .empty
  else
    match firstFault 0 segments with
    | some fault => .error fault
    | none => .ok ⟨segments, h⟩

/-- The topic written as its segments with slashes between them. -/
def parse (text : String) : Except TopicError Topic :=
  if text.isEmpty then .error .empty
  else ofSegments ((Text.pieces '/' text.toList).map String.ofList)

/-- The segments with slashes between them. -/
def text (topic : Topic) : String :=
  String.ofList (Text.joined '/' (topic.segments.map String.toList))

/-! ## Position in the hierarchy -/

/-- The first segment. -/
def root (topic : Topic) : String :=
  topic.segments.head topic.nonempty

/-- The last segment. -/
def name (topic : Topic) : String :=
  topic.segments.getLast topic.nonempty

/-- The number of segments below the first. -/
def depth (topic : Topic) : Nat :=
  topic.segments.length - 1

/-- The topic of the first `count` segments, where that is a topic. -/
def upTo? (topic : Topic) (count : Nat) : Option Topic :=
  if h : topic.segments.take count = [] then none else some ⟨topic.segments.take count, h⟩

/-- The topic without its last segment; a topic of one segment has no parent. -/
def parent? (topic : Topic) : Option Topic :=
  topic.upTo? (topic.segments.length - 1)

/-- The topics strictly above, outermost first. -/
def ancestors (topic : Topic) : List Topic :=
  (List.range (topic.segments.length - 1)).filterMap fun k => topic.upTo? (k + 1)

/-- The topic with one more segment. Any text will do for the segment. -/
def child (topic : Topic) (segment : String) : Topic :=
  ⟨topic.segments ++ [segment], by simp⟩

/-- Whether `other` lies strictly below `topic`. -/
def isAbove (topic other : Topic) : Bool :=
  topic.segments.length < other.segments.length && topic.segments.isPrefixOf other.segments

end Topic

end Marginalia
