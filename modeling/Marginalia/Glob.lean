/-
Glob patterns for file paths, and which paths they match.

Paths are matched as bytes of UTF-8. `*` stands for any bytes and `?` for any
one byte, slashes included; `**` between slashes stands for any number of
directories; brackets list bytes and braces list alternatives, which may nest.

A match is found by keeping the set of places in the path that are reachable:
each token moves the set on, and the path matches if its end is reached. A
place is given by what is left of the path from there.
-/
import Marginalia.Text.Cut

set_option autoImplicit false

namespace Marginalia

/-- A part of a glob pattern. -/
inductive GlobToken where
  /-- A character that stands for itself. -/
  | literal (c : Char)
  /-- Any one byte. -/
  | any
  /-- Any bytes. -/
  | anything
  /-- Leading directories, or none. -/
  | leadingDirs
  /-- Everything below. -/
  | allBelow
  /-- A slash, or directories between slashes. -/
  | middleDirs
  /-- A byte that is in one of the ranges, or one that is not. -/
  | oneOf (negated : Bool) (ranges : List (Char × Char))
  /-- One of several patterns. -/
  | alternatives (branches : List (List GlobToken))
deriving Repr, Inhabited

/-- A glob pattern, as its parts. -/
structure Glob where
  tokens : List GlobToken
deriving Repr, Inhabited

namespace GlobToken

/-! ## Alternatives with nothing in them -/

mutual

/-- Whether a token stands for nothing at all. -/
def vanishes : GlobToken → Bool
  | .alternatives branches => allVanish branches
  | _ => false

/-- Whether every token of a pattern stands for nothing. -/
def branchVanishes : List GlobToken → Bool
  | [] => true
  | token :: tokens => token.vanishes && branchVanishes tokens

/-- Whether every branch stands for nothing. -/
def allVanish : List (List GlobToken) → Bool
  | [] => true
  | branch :: branches => branchVanishes branch && allVanish branches

end

/-! ## Matching -/

/-- The bytes of a character. -/
def bytesOf (c : Char) : List UInt8 :=
  (String.singleton c).toUTF8.toList

/-- What is left of a path behind each of its slashes. -/
def behindSlashes : List UInt8 → List (List UInt8)
  | [] => []
  | b :: rest => if b = 0x2F then rest :: behindSlashes rest else behindSlashes rest

/-- What is left of a path behind each of its bytes, and all of it. -/
def suffixes : List UInt8 → List (List UInt8)
  | [] => [[]]
  | b :: rest => (b :: rest) :: suffixes rest

/-- A path that starts with a slash, without it. -/
def dropSlash? : List UInt8 → Option (List UInt8)
  | b :: rest => if b = 0x2F then some rest else none
  | [] => none

/-- The byte ranges that a range of characters comes to in brackets. The last byte of the first
character and the first byte of the last one bound the range; their other bytes stand alone. -/
def byteRanges (low high : Char) : List (UInt8 × UInt8) :=
  let alone (bytes : List UInt8) := bytes.map fun b => (b, b)
  if low = high then alone (bytesOf low)
  else
    let first := bytesOf low
    let last := bytesOf high
    alone first.dropLast ++ [(first.getLast?.getD 0, last.head?.getD 0)] ++ alone last.tail

/-- Each place once. -/
def distinct (places : List (List UInt8)) : List (List UInt8) :=
  places.foldr (fun p kept => if kept.any (fun q => q.length = p.length) then kept else p :: kept) []

mutual

/-- The places reached from a place. -/
def reach : GlobToken → List UInt8 → List (List UInt8)
  | .literal c, place =>
    let bytes := bytesOf c
    if bytes.isPrefixOf place then [place.drop bytes.length] else []
  | .any, place =>
    match place with
    | [] => []
    | _ :: rest => [rest]
  | .anything, place => suffixes place
  | .leadingDirs, place => place :: behindSlashes place
  | .allBelow, place => (dropSlash? place).toList.flatMap suffixes
  | .middleDirs, place => (dropSlash? place).toList.flatMap fun rest => rest :: behindSlashes rest
  | .oneOf negated ranges, place =>
    match place with
    | [] => []
    | b :: rest =>
      let inside := ranges.any fun (low, high) =>
        (byteRanges low high).any fun (x, y) => x ≤ b && b ≤ y
      if inside != negated then [rest] else []
  | .alternatives branches, place =>
    if allVanish branches then [place] else reachAny branches place

/-- The places reached through a branch that stands for something. -/
def reachAny : List (List GlobToken) → List UInt8 → List (List UInt8)
  | [], _ => []
  | branch :: branches, place =>
    (if branchVanishes branch then [] else reachAll branch [place]) ++ reachAny branches place

/-- The places reached from several places by tokens one after the other. -/
def reachAll : List GlobToken → List (List UInt8) → List (List UInt8)
  | [], places => places
  | token :: tokens, places => reachAll tokens (distinct (places.flatMap (reach token)))

end

/-- The character of a literal. -/
def literal? : GlobToken → Option Char
  | .literal c => some c
  | _ => none

end GlobToken

namespace Glob

/-- The characters of a pattern without any special part. -/
def literals? (tokens : List GlobToken) : Option (List Char) :=
  tokens.mapM GlobToken.literal?

/-- Whether tokens are literals, and none of them is one of `refused`. -/
def areLiterals (refused : List Char) (tokens : List GlobToken) : Bool :=
  (literals? tokens).any fun cs => cs.all fun c => !refused.contains c

/-- Whether a pattern only asks for a file name or an extension: a name below any directory, or a
star and an extension. -/
def asksForName (glob : Glob) : Bool :=
  match glob.tokens with
  | .leadingDirs :: .anything :: .literal '.' :: tokens => areLiterals ['.', '/'] tokens
  | .leadingDirs :: tokens => !tokens.isEmpty && areLiterals ['/'] tokens
  | .anything :: .literal '.' :: tokens => areLiterals ['.', '/'] tokens
  | _ => false

/-- Whether a pattern is a literal ending of paths. -/
def isEnding (glob : Glob) : Bool :=
  areLiterals [] <| match glob.tokens with
    | .leadingDirs :: .anything :: tokens => tokens
    | .leadingDirs :: tokens => tokens
    | .anything :: tokens => tokens
    | tokens => tokens

/-- Whether a pattern ends in a dot and an extension. -/
def endsInExtension (glob : Glob) : Bool :=
  let tail := glob.tokens.reverse.takeWhile fun t => t.literal?.any fun c => c ≠ '.' && c ≠ '/'
  (glob.tokens.reverse.drop tail.length).head?.any fun t => t.literal? = some '.'

/-- Whether only paths with a file name are looked at. A path that ends in a dot has none. -/
def needsFileName (glob : Glob) : Bool :=
  glob.asksForName || (!glob.isEnding && glob.endsInExtension)

/-- Whether a path matches a pattern. -/
def isMatch (glob : Glob) (path : String) : Bool :=
  let bytes := path.toUTF8.toList
  if glob.needsFileName && bytes.getLast?.all (· = 0x2E) then false
  else
    match glob.tokens with
    | [.leadingDirs] => true
    | tokens => (GlobToken.reachAll tokens [bytes]).any List.isEmpty

end Glob

end Marginalia
