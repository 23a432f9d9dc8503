/-
Places in source files.

Positions are ordered by file, then line, then column, and files are ordered
by their steps. Two positions can therefore tie in the order and still be
spelled differently; `same` is the tie, `=` is the spelling. A file is known
by its path as a text, so only files with names in UTF-8 have positions.
-/
import Marginalia.SourcePath

set_option autoImplicit false

namespace Marginalia

/-- A place in a source file. Lines and columns count from one, columns in characters. -/
structure Position where
  /-- The path of the file, in UTF-8; a position with another path could not be written into a
  document. -/
  file : String
  line : Nat
  column : Nat
deriving DecidableEq, Repr

namespace Position

/-- File, then line, then column. -/
def order : Position → Position → Ordering :=
  compareLex (fun a b => SourcePath.order a.file b.file)
    (compareLex (compareOn line) (compareOn column))

instance : Std.TransCmp order := by
  have : Std.TransCmp fun a b : Position => SourcePath.order a.file b.file :=
    inferInstanceAs (Std.TransCmp (compareOn fun p : Position => SourcePath.components p.file))
  exact inferInstanceAs (Std.TransCmp (compareLex _ _))

instance : Ord Position := ⟨order⟩

instance : Std.TransOrd Position :=
  inferInstanceAs (Std.TransCmp order)

/-- Whether two positions are one place, however their files are spelled. -/
def same (a b : Position) : Bool :=
  compare a b == .eq

/-- File, line and column with colons between them. -/
def text (position : Position) : String :=
  s!"{position.file}:{position.line}:{position.column}"

end Position

end Marginalia
