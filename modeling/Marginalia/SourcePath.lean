/-
File paths, as texts with a component view.

A path is kept exactly as it was given and shown that way, but it is compared
through its components: repeated and trailing slashes and `.` components past
the start say nothing, so `a//b`, `a/./b` and `a/b/` are one path in three
spellings. A leading `.` does count, and so does `..`, because dropping either
would need the file system.

Being a text, a path is always valid UTF-8. A file whose name is some other
sequence of bytes has no path here, and no position in it could be written
into a document, where names are texts too. So what is proved of positions and
documents is about all paths that a document can hold.
-/
import Marginalia.Text.Cut

set_option autoImplicit false

namespace Marginalia.SourcePath

/-- One step of a path. -/
inductive Component where
  /-- The slash an absolute path starts with. -/
  | root
  /-- A leading `.`. -/
  | here
  /-- The step `..` to the parent. -/
  | up
  /-- A step to a named file or directory. -/
  | named (name : String)
deriving DecidableEq, Repr

namespace Component

/-- How a step is written. -/
def text : Component → String
  | .root => "/"
  | .here => "."
  | .up => ".."
  | .named name => name

/-- Kinds of steps, in increasing order. -/
def rank : Component → Nat
  | .root => 0
  | .here => 1
  | .up => 2
  | .named _ => 3

/-- Steps compare by kind, and named steps by name. -/
instance : Ord Component := ⟨compareLex (compareOn rank) (compareOn text)⟩

instance : Std.TransOrd Component :=
  inferInstanceAs (Std.TransCmp (compareLex (compareOn rank) (compareOn text)))

end Component

/-- A piece between slashes as a step; an empty piece and a `.` are none. -/
def step? (piece : String) : Option Component :=
  if piece.isEmpty || piece == "." then none
  else if piece == ".." then some .up
  else some (.named piece)

/-- The steps of a path. -/
def components (path : String) : List Component :=
  let parts := (Text.pieces '/' path.toList).map String.ofList
  let start : List Component :=
    if Text.startsWith ['/'] path.toList then [.root]
    else if parts.head? = some "." then [.here]
    else []
  start ++ parts.filterMap step?

/-- Paths compare step by step. -/
def order : String → String → Ordering :=
  compareOn components

instance : Std.TransCmp order :=
  inferInstanceAs (Std.TransCmp (compareOn components))

/-- The steps with slashes between them, without a leading `.`. -/
def slashed (path : String) : String :=
  String.intercalate "/" (((components path).filter (· ≠ .here)).map Component.text)

/-! ## File names -/

/-- The name in the last step, if the path ends in a named step. -/
def fileName? (path : String) : Option String :=
  match (components path).getLast? with
  | some (.named name) => some name
  | _ => none

/-- The part of a file name after its last dot. A name without a dot, or with its only dot in
front, has none. -/
def extension? (path : String) : Option String := do
  let name ← fileName? path
  let parts := Text.pieces '.' name.toList
  if parts.length < 2 then none
  else if parts.length = 2 && parts.head? = some [] then none
  else parts.getLast?.map String.ofList

/-- `base` with the relative path `name` below it. -/
def join (base name : String) : String :=
  if base.isEmpty || base.toList.getLast? = some '/' then base ++ name
  else base ++ "/" ++ name

/-- The spelling of a path without its last step and without what says nothing before it. -/
def directory (path : String) : String :=
  let parts := Text.pieces '/' path.toList
  let quiet (piece : List Char) : Bool := piece = [] || piece = ['.']
  let kept := ((parts.reverse.dropWhile quiet).drop 1).reverse
  let front := kept.take 1
  let body := ((kept.drop 1).reverse.dropWhile quiet).reverse
  if body.isEmpty && front = [[]] then "/"
  else String.ofList (Text.joined '/' (front ++ body))

end Marginalia.SourcePath
