/-
The prose of a note: its lines without their common indentation, and the
topics it links to.

Indentation is counted in bytes of UTF-8, as the widths of white space
differ. Where the common width would cut a character of some line in two,
that line keeps its indentation.
-/
import Marginalia.Topic

set_option autoImplicit false

namespace Marginalia.Prose

/-! ## Indentation -/

/-- The number of bytes of a text in UTF-8. -/
def bytes : List Char → Nat
  | [] => 0
  | c :: text => c.utf8Size + bytes text

/-- The text after its first `count` bytes, if that is a place between two characters. -/
def dropBytes : Nat → List Char → Option (List Char)
  | 0, text => some text
  | _ + 1, [] => none
  | count + 1, c :: text =>
    if c.utf8Size ≤ count + 1 then dropBytes (count + 1 - c.utf8Size) text else none

/-- The width of the white space a line starts with. -/
def indentation (line : List Char) : Nat :=
  bytes (line.takeWhile Text.isBlank)

/-- The indentation that all lines but the blank ones share. -/
def commonIndentation (lines : List (List Char)) : Nat :=
  ((lines.filter fun line => !Text.allBlank line).map indentation).min?.getD 0

/-- A line without the common indentation; a blank line becomes empty. -/
def dedentLine (indent : Nat) (line : List Char) : List Char :=
  if Text.allBlank line then [] else (dropBytes indent line).getD line

/-- The lines from the first to the last that is not empty. -/
def dropEmptyEnds (lines : List (List Char)) : List (List Char) :=
  ((lines.dropWhile List.isEmpty).reverse.dropWhile List.isEmpty).reverse

/-- The body made of the text on the marker's line and of the lines below it. -/
def dedent (first rest : List Char) : List Char :=
  let lines := Text.lines rest
  let below := lines.map (dedentLine (commonIndentation lines))
  let front := if first.isEmpty then [] else [first]
  Text.joined '\n' (dropEmptyEnds (front ++ below))

/-! ## Links -/

/-- The topics between `@[` and `]` from the left. A marker that names no topic is passed over with
everything up to its bracket, and an unclosed one ends the search. -/
def mentionsFrom (text : List Char) : List Topic :=
  match _h : Text.cutAt ['@', '['] text with
  | none => []
  | some (_, rest) =>
    match _h' : Text.cutAt [']'] rest with
    | none => []
    | some (inside, rest) =>
      (Topic.parse (String.ofList inside)).toOption.toList ++ mentionsFrom rest
termination_by text.length
decreasing_by
  have := congrArg List.length (Text.eq_append_of_cutAt _h)
  have := congrArg List.length (Text.eq_append_of_cutAt _h')
  simp only [List.length_append, List.length_cons] at *
  omega

/-- The topics a text links to, in order and with repetitions. -/
def mentions (text : String) : List Topic :=
  mentionsFrom text.toList

end Marginalia.Prose
