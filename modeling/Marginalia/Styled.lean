/-
Text with styles, which are shown in colour or not at all.

A styled text is a list of spans. What the words are is settled before colour
comes in: rendering with colours wraps each styled span in a style sequence
and a reset, rendering without them leaves those out, and nothing else
differs. A span may ask for a least width; the blanks that fill it up stand
inside the style.
-/
import Marginalia.Text.Cut

set_option autoImplicit false

namespace Marginalia

/-- The colours in use. -/
inductive Colour where
  | red
  | green
  | yellow
  | cyan
deriving DecidableEq, Repr

/-- The code of a colour in a style sequence. -/
def Colour.code : Colour → String
  | .red => "31"
  | .green => "32"
  | .yellow => "33"
  | .cyan => "36"

/-- How a span looks. -/
structure Style where
  bold : Bool := false
  dimmed : Bool := false
  colour : Option Colour := none
deriving DecidableEq, Repr

namespace Style

/-- The codes of a style: weight first, then colour. -/
def codes (style : Style) : List String :=
  (if style.bold then ["1"] else []) ++ (if style.dimmed then ["2"] else [])
    ++ (style.colour.map Colour.code).toList

/-- The sequence that turns a style on. -/
def sequence (style : Style) : String :=
  "\x1b[" ++ ";".intercalate style.codes ++ "m"

/-- The sequence that turns all styles off. -/
def reset : String := "\x1b[0m"

end Style

/-- A piece of text in one style. -/
structure Span where
  text : String
  style : Style := {}
  /-- The least number of characters shown. -/
  width : Nat := 0
deriving DecidableEq, Repr

namespace Span

/-- A text filled up with blanks to a width. -/
def padded (width : Nat) (text : List Char) : List Char :=
  text ++ List.replicate (width - text.length) ' '

/-- Whether a span has no style at all. -/
def isPlain (span : Span) : Bool :=
  span.style.codes.isEmpty

/-- A span as it is printed. A reset inside the text is followed by the span's style again. -/
def render (colours : Bool) (span : Span) : String :=
  let chars := span.text.toList
  if !colours || span.isPlain then String.ofList (padded span.width chars)
  else
    let start := span.style.sequence
    let inner := Text.replaceAll Style.reset.toList (Style.reset ++ start).toList chars
    start ++ String.ofList (padded span.width inner) ++ Style.reset

end Span

/-- Text in styles. -/
abbrev Styled := List Span

namespace Styled

/-- Text without a style. -/
def plain (text : String) : Styled := [{ text }]

/-- Bold text. -/
def bold (text : String) : Styled := [{ text, style := { bold := true } }]

/-- Dimmed text. -/
def dimmed (text : String) : Styled := [{ text, style := { dimmed := true } }]

/-- Text in a colour. -/
def coloured (colour : Colour) (text : String) : Styled := [{ text, style := { colour } }]

/-- Bold text in a colour. -/
def strong (colour : Colour) (text : String) : Styled :=
  [{ text, style := { bold := true, colour } }]

/-- Styled text as it is printed, with colours or without. -/
def render (colours : Bool) (text : Styled) : String :=
  String.join (text.map (Span.render colours))

end Styled

end Marginalia
