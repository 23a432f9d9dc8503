/-
Reading a glob pattern from its text.

The text is read from the left. Open braces are kept on a stack, each with
the branches finished so far and what stood before the brace. A `**` is only
special between separators; anywhere else it is two stars.
-/
import Marginalia.Glob

set_option autoImplicit false

namespace Marginalia.Glob

/-- Why a text is no glob pattern. -/
inductive Fault where
  | unclosedClass
  | invalidRange (low high : Char)
  | unopenedAlternates
  | unclosedAlternates
  | danglingEscape
deriving DecidableEq, Repr

/-- The wording of a fault. -/
def Fault.message : Fault → String
  | .unclosedClass => "unclosed character class; missing ']'"
  | .invalidRange low high =>
    "invalid range; '" ++ low.toString ++ "' > '" ++ high.toString ++ "'"
  | .unopenedAlternates =>
    "unopened alternate group; missing '\x7b' (maybe escape '\x7d' with '[\x7d]'?)"
  | .unclosedAlternates =>
    "unclosed alternate group; missing '\x7d' (maybe escape '\x7b' with '[\x7b]'?)"
  | .danglingEscape => "dangling '\\'"

/-- An open brace: the branches finished behind it, the latest first, and the tokens before it, the
latest first. -/
structure Frame where
  branches : List (List GlobToken)
  before : List GlobToken

/-- How far the reader is. -/
structure Reader where
  /-- The tokens of the current branch, the latest first. -/
  tokens : List GlobToken := []
  frames : List Frame := []
  /-- The character read last. -/
  previous : Option Char := none

/-- The reader with one more token. -/
def Reader.push (reader : Reader) (token : GlobToken) : Reader :=
  { reader with tokens := token :: reader.tokens }

/-! ## Brackets -/

/-- Reads a bracketed list behind its opening: the ranges so far, the latest first; whether a dash
asks for the end of the latest range; and whether nothing has been read yet. Gives the ranges and
what follows the closing bracket. -/
def readRanges : List (Char × Char) → Bool → Bool → List Char →
    Except Fault (List (Char × Char) × List Char)
  | _, _, _, [] => .error .unclosedClass
  | ranges, inRange, first, c :: rest =>
    if c = ']' && !first then
      .ok ((if inRange then ('-', '-') :: ranges else ranges).reverse, rest)
    else if c = '-' && !first && !inRange then
      readRanges ranges true false rest
    else if inRange then
      match ranges with
      | (low, _) :: others =>
        if c < low then .error (.invalidRange low c)
        else readRanges ((low, c) :: others) false false rest
      | [] => readRanges [(c, c)] false false rest
    else
      readRanges ((c, c) :: ranges) false false rest

/-- Reads a bracketed list behind its opening bracket. -/
def readClass (text : List Char) : Except Fault (GlobToken × List Char) := do
  let (negated, text) := match text with
    | '!' :: rest => (true, rest)
    | '^' :: rest => (true, rest)
    | rest => (false, rest)
  let (ranges, rest) ← readRanges [] false true text
  pure (.oneOf negated ranges, rest)

/-! ## Stars -/

/-- The reader behind two stars that are nothing special. -/
def Reader.twoStars (reader : Reader) : Reader :=
  { (reader.push .anything).push .anything with previous := some '*' }

/-- Reads a second star that is next, given what is behind it. -/
def readStars (reader : Reader) (rest : List Char) : Reader × List Char :=
  let inGroup := !reader.frames.isEmpty
  if reader.tokens.isEmpty then
    match rest with
    | [] => (reader.push .leadingDirs, [])
    | '/' :: rest => ({ reader.push .leadingDirs with previous := some '/' }, rest)
    | rest => (reader.twoStars, rest)
  else if reader.previous ≠ some '/'
      && !(inGroup && (reader.previous = some ',' || reader.previous = some '\x7b')) then
    (reader.twoStars, rest)
  else
    -- The character before the stars is part of what they stand for.
    let replaceLast (token : GlobToken) : Reader :=
      match reader.tokens with
      | .leadingDirs :: _ => reader
      | .allBelow :: _ => reader
      | _ :: tokens => { reader with tokens := token :: tokens }
      | [] => reader
    match rest with
    | [] => ({ replaceLast .allBelow with previous := some '*' }, [])
    | '/' :: rest => ({ replaceLast .middleDirs with previous := some '/' }, rest)
    | c :: _ =>
      if inGroup && (c = ',' || c = '\x7d') then
        ({ replaceLast .allBelow with previous := some '*' }, rest)
      else (reader.twoStars, rest)

/-! ## Patterns -/

/-- Closes the innermost brace. -/
def Reader.close (reader : Reader) : Except Fault Reader :=
  match reader.frames with
  | [] => .error .unopenedAlternates
  | frame :: frames =>
    let branches := (reader.tokens.reverse :: frame.branches).reverse
    .ok { reader with tokens := .alternatives branches :: frame.before, frames }

/-- Starts another branch of the innermost brace. -/
def Reader.comma (reader : Reader) : Reader :=
  match reader.frames with
  | [] => reader.push (.literal ',')
  | frame :: frames =>
    { reader with
      tokens := []
      frames := { frame with branches := reader.tokens.reverse :: frame.branches } :: frames }

/-- Reads the rest of a pattern, which has at most as many characters as the number says. -/
def readFrom : Nat → Reader → List Char → Except Fault Reader
  | 0, reader, _ => .ok reader
  | _ + 1, reader, [] => .ok reader
  | n + 1, reader, c :: rest =>
    let passed (r : Reader) : Reader := { r with previous := some c }
    match c, rest with
    | '?', rest => readFrom n (passed (reader.push .any)) rest
    | '*', '*' :: rest =>
      let (reader, rest) := readStars reader rest
      readFrom n reader rest
    | '*', rest => readFrom n (passed (reader.push .anything)) rest
    | '[', rest => do
      let (token, rest) ← readClass rest
      readFrom n { reader.push token with previous := some ']' } rest
    | '\x7b', rest =>
      readFrom n
        (passed { reader with tokens := [], frames := ⟨[], reader.tokens⟩ :: reader.frames }) rest
    | '\x7d', rest => do
      let reader ← reader.close
      readFrom n (passed reader) rest
    | ',', rest => readFrom n (passed reader.comma) rest
    | '\\', [] => .error .danglingEscape
    | '\\', d :: rest => readFrom n { reader.push (.literal d) with previous := some d } rest
    | c, rest => readFrom n (passed (reader.push (.literal c))) rest

/-- The pattern that a text spells. -/
def parse (text : String) : Except Fault Glob := do
  let reader ← readFrom text.length {} text.toList
  if reader.frames.isEmpty then pure ⟨reader.tokens.reverse⟩
  else .error .unclosedAlternates

end Marginalia.Glob
