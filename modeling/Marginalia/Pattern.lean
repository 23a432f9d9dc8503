/-
Regular expressions over characters, and what they match.

A pattern matches from a spot in a text to other spots further on. Which of
them counts is a matter of preference: the left alternative before the right
one, one more round of a greedy loop before none. `ends` lists the spots a
match can reach, most preferred first, and keeps for each place only the most
preferred way to reach it; what follows a pattern cannot tell two ways to one
place apart, so nothing is lost and the lists stay short. The match of a
pattern in a text starts as far left as possible and is the first that `ends`
lists there.

A round of a loop that takes no character ends the loop, so loops stop.
-/
import Marginalia.Text.Blank
import Marginalia.Text.CaseFold
import Marginalia.Text.Word
import Std.Data.HashSet

set_option autoImplicit false

namespace Marginalia

/-! ## Sets of characters -/

/-- A set of characters. -/
inductive CharSet where
  /-- The code points in closed ranges. -/
  | ranges (ranges : List (Nat × Nat))
  /-- Word characters of all scripts. -/
  | word
  /-- Decimal digits of all scripts. -/
  | digit
  /-- White space. -/
  | blank
  | union (a b : CharSet)
  | inter (a b : CharSet)
  | compl (a : CharSet)
  /-- The set with all cases of its letters. -/
  | anyCase (a : CharSet)
deriving Repr, Inhabited

namespace CharSet

/-- Whether a code point is in a set. -/
def has : CharSet → Nat → Bool
  | .ranges rs, n => Text.inRanges rs n
  | .word, n => Text.isWord (Char.ofNat n)
  | .digit, n => Text.isDigit (Char.ofNat n)
  | .blank, n => Text.isBlank (Char.ofNat n)
  | .union a b, n => a.has n || b.has n
  | .inter a b, n => a.has n && b.has n
  | .compl a, n => !a.has n
  | .anyCase a, n => (Text.caseVariants n).any a.has

/-- The set of one character. -/
def single (c : Char) : CharSet :=
  .ranges [(c.toNat, c.toNat)]

/-- The set of no character. -/
def none : CharSet :=
  .ranges []

end CharSet

/-! ## Patterns -/

/-- A condition on a place between two characters. -/
inductive Look where
  | textStart
  | textEnd
  | lineStart
  | lineEnd
  /-- The start of a line where a carriage return, a line feed or both end lines. -/
  | lineStartAny
  /-- The end of a line where a carriage return, a line feed or both end lines. -/
  | lineEndAny
  | wordEdge
  | noWordEdge
  | wordStart
  | wordEnd
  /-- No word character before. -/
  | wordStartHalf
  /-- No word character behind. -/
  | wordEndHalf
deriving DecidableEq, Repr

/-- A regular expression. -/
inductive Pattern where
  | empty
  | char (set : CharSet)
  | look (condition : Look)
  | seq (first second : Pattern)
  | alt (preferred other : Pattern)
  /-- One round or more. -/
  | many (greedy : Bool) (body : Pattern)
  /-- Records what the body matches under a number. -/
  | group (number : Nat) (body : Pattern)
deriving Repr, Inhabited

/-! ## Places in a text -/

/-- A place in a text, and what has been recorded on the way to it. -/
structure Spot where
  /-- The number of characters before the place. -/
  index : Nat
  before : Option Char
  rest : List Char
  /-- The recorded texts by number, the latest first. -/
  groups : List (Nat × List Char)

/-- Whether there is a word character before a spot. -/
def Spot.wordBefore (s : Spot) : Bool :=
  s.before.any Text.isWord

/-- Whether there is a word character behind a spot. -/
def Spot.wordBehind (s : Spot) : Bool :=
  s.rest.head?.any Text.isWord

/-- Whether a condition holds at a spot. -/
def Look.holds (s : Spot) : Look → Bool
  | .textStart => s.before.isNone
  | .textEnd => s.rest.isEmpty
  | .lineStart => s.before.isNone || s.before == some '\n'
  | .lineEnd => s.rest.isEmpty || s.rest.head? == some '\n'
  | .lineStartAny =>
    s.before.isNone || s.before == some '\n'
      || (s.before == some '\r' && s.rest.head? != some '\n')
  | .lineEndAny =>
    s.rest.isEmpty || s.rest.head? == some '\r'
      || (s.rest.head? == some '\n' && s.before != some '\r')
  | .wordEdge => s.wordBefore != s.wordBehind
  | .noWordEdge => s.wordBefore == s.wordBehind
  | .wordStart => !s.wordBefore && s.wordBehind
  | .wordEnd => s.wordBefore && !s.wordBehind
  | .wordStartHalf => !s.wordBefore
  | .wordEndHalf => !s.wordBehind

/-- What the group with a number last matched on the way to a spot. -/
def Spot.group? (s : Spot) (number : Nat) : Option String :=
  (s.groups.lookup number).map String.ofList

namespace Pattern

/-- A pattern, or nothing at all if that cannot be helped. -/
def optional (greedy : Bool) (body : Pattern) : Pattern :=
  if greedy then .alt body .empty else .alt .empty body

/-- Patterns one after the other. -/
def sequence (patterns : List Pattern) : Pattern :=
  match patterns with
  | [] => .empty
  | p :: ps => ps.foldl .seq p

/-- Up to `count` rounds. -/
def upTo (greedy : Bool) (body : Pattern) : Nat → Pattern
  | 0 => .empty
  | 1 => optional greedy body
  | count + 1 => optional greedy (.seq body (upTo greedy body count))

/-- At least `least` rounds, and at most `most` where that is given. -/
def rounds (greedy : Bool) (body : Pattern) (least : Nat) (most : Option Nat) : Pattern :=
  match most with
  | some m => sequence (List.replicate least body ++ if m ≤ least then [] else [upTo greedy body (m - least)])
  | none =>
    match least with
    | 0 => optional greedy (.many greedy body)
    | n + 1 => sequence (List.replicate n body ++ [.many greedy body])

/-! ## Matching -/

/-- The spots found so far, the latest first, and their places. -/
structure Found where
  seen : Std.HashSet Nat := ∅
  spots : List Spot := []

/-- Adds a spot at a new place. -/
def Found.add (found : Found) (s : Spot) : Found :=
  if found.seen.contains s.index then found
  else ⟨found.seen.insert s.index, s :: found.spots⟩

/-- Of the spots at one place, the first. -/
def distinct (spots : List Spot) : List Spot :=
  (spots.foldl Found.add {}).spots.reverse

/-- Adds the spots that up to `limit` more rounds reach from a spot, the spot itself among them. From
a place that was reached before, nothing new is reached. -/
def addRounds (step : Spot → List Spot) (greedy : Bool) : Nat → Found → Spot → Found
  | 0, found, s => found.add s
  | limit + 1, found, s =>
    if found.seen.contains s.index then found
    else
      let further := (step s).filter fun t => t.index ≠ s.index
      if greedy then (further.foldl (addRounds step greedy limit) found).add s
      else further.foldl (addRounds step greedy limit) (found.add s)

/-- The spots a match from a spot can reach, most preferred first. -/
def ends : Pattern → Spot → List Spot
  | .empty, s => [s]
  | .char set, s =>
    match s.rest with
    | [] => []
    | c :: rest =>
      if set.has c.toNat then [{ s with index := s.index + 1, before := some c, rest }] else []
  | .look condition, s => if condition.holds s then [s] else []
  | .seq first second, s => distinct ((ends first s).flatMap (ends second))
  | .alt preferred other, s => distinct (ends preferred s ++ ends other s)
  | .many greedy body, s =>
    let found := (ends body s).foldl
      (fun found t =>
        if t.index = s.index then found.add t
        else addRounds (ends body) greedy t.rest.length found t)
      {}
    found.spots.reverse
  | .group number body, s =>
    (ends body s).map fun t =>
      { t with groups := (number, s.rest.take (t.index - s.index)) :: t.groups }

/-- The first match at a spot or behind it. -/
def firstFrom (pattern : Pattern) (index : Nat) (before : Option Char) :
    List Char → Option Spot
  | [] => (pattern.ends ⟨index, before, [], []⟩).head?
  | c :: rest =>
    match pattern.ends ⟨index, before, c :: rest, []⟩ with
    | s :: _ => some s
    | [] => firstFrom pattern (index + 1) (some c) rest

/-- The end of the leftmost match in a text. -/
def match? (pattern : Pattern) (text : String) : Option Spot :=
  pattern.firstFrom 0 none text.toList

/-- Whether a text has a match. -/
def occursIn (pattern : Pattern) (text : String) : Bool :=
  (pattern.match? text).isSome

/-- What the lowest-numbered group that takes part in the leftmost match matches. -/
def firstGroup? (pattern : Pattern) (text : String) : Option String := do
  let s ← pattern.match? text
  let lowest ← (s.groups.map (·.1)).min?
  s.group? lowest

end Pattern

end Marginalia
