/-
Which characters count as blank, and how blank ends are trimmed from a text.

"Blank" is the Unicode property `White_Space`, all twenty-five code points of
it. The narrower classes in common use would be wrong in both directions: a
title that ends in an ideographic space has to lose it, and a file separator
(`U+001C`) or a zero-width space has to stay.

Everything works on `List Char`. The trims drop from either end and never
touch the middle, so a trimmed text is always a contiguous part of the text
it came from.
-/

set_option autoImplicit false

namespace Marginalia.Text

/-- The closed ranges of code points with the Unicode property `White_Space`. -/
def blankRanges : List (Nat × Nat) :=
  [(0x09, 0x0D), (0x20, 0x20), (0x85, 0x85), (0xA0, 0xA0), (0x1680, 0x1680), (0x2000, 0x200A),
   (0x2028, 0x2029), (0x202F, 0x202F), (0x205F, 0x205F), (0x3000, 0x3000)]

/-- Whether a character is white space. -/
def isBlank (c : Char) : Bool :=
  blankRanges.any fun (low, high) => low ≤ c.toNat && c.toNat ≤ high

/-- Whether a text holds nothing but white space. -/
def allBlank (text : List Char) : Bool :=
  text.all isBlank

/-! ## Trimming -/

/-- The text from its first character that is not blank. -/
def trimStart (text : List Char) : List Char :=
  text.dropWhile isBlank

/-- The text up to its last character that is not blank. -/
def trimEnd (text : List Char) : List Char :=
  (text.reverse.dropWhile isBlank).reverse

/-- The text without the blank characters at its two ends. -/
def trim (text : List Char) : List Char :=
  trimEnd (trimStart text)

/-- `trim`, on strings. -/
def trimmed (text : String) : String :=
  String.ofList (trim text.toList)

end Marginalia.Text
