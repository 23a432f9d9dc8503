/-
The marks that set comments and literals off from code, and the search for
the first comment in a stretch of one line.

The search passes over literals, so that a marker inside a string opens
nothing. Its state says which literal the next character belongs to. At a
character of code the block opener is tried first, then the line markers in
their listed order, then the quotes; a plain string ends with its line at the
latest, and only a raw string can still be open where the line ends.

In documents and settings the gutter is the `block_line_prefix`.
-/
import Marginalia.Text.Cut

set_option autoImplicit false

namespace Marginalia

/-- The comment and literal marks of a family of files. -/
structure Delimiters where
  /-- The marks that make the rest of their line a comment, in the order they are tried. -/
  lineMarkers : List String
  blockStart : Option String
  blockEnd : Option String
  /-- What the lines of a decorated block comment start with, such as `*`. -/
  gutter : Option String
  /-- The quotes of strings with escapes, which end with their line. -/
  stringQuotes : List Char
  /-- The quotes of strings without escapes, which may run over lines. -/
  rawQuotes : List Char
  /-- Whether a single character between apostrophes is a literal. -/
  charLiterals : Bool
deriving DecidableEq, Repr, Inhabited

/-- The start of a comment. -/
inductive Opening where
  /-- A line marker. -/
  | line (marker : List Char)
  /-- A block opener, with the closer that belongs to it. -/
  | block (opener closer : List Char)
deriving DecidableEq, Repr

/-- Where the next character of a line stands. -/
inductive Standing where
  /-- In code, except that the next `passed` characters belong to a character literal. -/
  | code (passed : Nat)
  /-- In a string with escapes. -/
  | plain (quote : Char) (escaped : Bool)
  /-- In a string without escapes. -/
  | raw (quote : Char)
deriving DecidableEq, Repr

/-- What the search finds in a stretch of one line. -/
inductive Stretch where
  /-- No comment; a raw string may be left open. -/
  | plain (openRaw : Option Char)
  /-- The code before a comment, what opens the comment, and what follows the opening. -/
  | comment (code : List Char) (opening : Opening) (rest : List Char)
deriving DecidableEq, Repr

/-- A stretch with one more character of code in front. -/
def Stretch.cons (c : Char) : Stretch → Stretch
  | .plain openRaw => .plain openRaw
  | .comment code opening rest => .comment (c :: code) opening rest

namespace Delimiters

/-- Delimiters with these line markers, longest first, and this block pair. Strings are in double
quotes. -/
def of (lineMarkers : List String) (block : Option (String × String)) : Delimiters where
  lineMarkers := lineMarkers.mergeSort fun a b => b.utf8ByteSize ≤ a.utf8ByteSize
  blockStart := block.map (·.1)
  blockEnd := block.map (·.2)
  gutter := none
  stringQuotes := ['"']
  rawQuotes := []
  charLiterals := false

/-- The block opener and closer, where both are given and neither is empty. -/
def block? (d : Delimiters) : Option (List Char × List Char) :=
  match d.blockStart, d.blockEnd with
  | some opener, some closer =>
    if opener.isEmpty || closer.isEmpty then none else some (opener.toList, closer.toList)
  | _, _ => none

/-- The comment opening at the start of a text, with the text that follows it. -/
def opening? (d : Delimiters) (text : List Char) : Option (Opening × List Char) :=
  let block := d.block?.bind fun (opener, closer) =>
    (Text.after? opener text).map fun rest => (Opening.block opener closer, rest)
  let line := d.lineMarkers.findSome? fun marker =>
    if marker.isEmpty then none
    else (Text.after? marker.toList text).map fun rest => (Opening.line marker.toList, rest)
  block.or line

/-- The number of characters after an apostrophe up to the end of the character literal it opens.
There is none where it opens a lifetime or a label. -/
def charLiteral? : List Char → Option Nat
  | '\'' :: _ => none
  | '\\' :: _ :: text => ((text.take 10).findIdx? (· = '\'')).map (· + 3)
  | _ :: '\'' :: _ => some 2
  | _ => none

/-- Where the character after code character `c` stands, given the text after `c`. -/
def enter (d : Delimiters) (c : Char) (text : List Char) : Standing :=
  if d.stringQuotes.contains c then .plain c false
  else if d.rawQuotes.contains c then .raw c
  else if c = '\'' && d.charLiterals then .code ((charLiteral? text).getD 0)
  else .code 0

/-- Where the character after `c` stands, if `c` stands in a string. -/
def passString (c : Char) : Standing → Standing
  | .raw quote => if c = quote then .code 0 else .raw quote
  | .plain quote true => .plain quote false
  | .plain quote false =>
    if c = '\\' then .plain quote true
    else if c = quote then .code 0
    else .plain quote false
  | .code passed => .code passed

/-- Searches a stretch of a line for its first comment. -/
def search (d : Delimiters) : Standing → List Char → Stretch
  | .raw quote, [] => .plain (some quote)
  | _, [] => .plain none
  | .code 0, c :: text =>
    match d.opening? (c :: text) with
    | some (opening, rest) => .comment [] opening rest
    | none => (d.search (d.enter c text) text).cons c
  | .code (passed + 1), c :: text => (d.search (.code passed) text).cons c
  | standing, c :: text => (d.search (passString c standing) text).cons c

/-- Searches a stretch that starts in code, or in the raw string left open before it. -/
def firstComment (d : Delimiters) (openRaw : Option Char) (text : List Char) : Stretch :=
  d.search (match openRaw with | some quote => .raw quote | none => .code 0) text

end Delimiters

end Marginalia
