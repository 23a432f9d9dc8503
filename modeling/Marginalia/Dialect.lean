/-
Dialects: how a family of files writes comments and declarations.

A dialect is known by its name and chosen by file extension. A collection of
dialects holds each name once: a dialect that is registered again moves to
the end and takes its new extensions with it, and where two dialects handle
one extension the one registered later answers. Settings describe a dialect
under `language`.
-/
import Marginalia.Note.Read
import Marginalia.Pattern.Parse

set_option autoImplicit false

namespace Marginalia

/-- How a family of files writes comments and declarations. -/
structure Dialect where
  name : String
  extensions : List String
  delimiters : Delimiters
  /-- What the first code of a declaration matches; its first group is the name declared. -/
  declaration : Option Pattern

namespace Dialect

/-- A dialect whose declarations are described by the text of a pattern. -/
def of (name : String) (extensions : List String) (delimiters : Delimiters)
    (declaration : Option String) : Except Pattern.Fault Dialect := do
  let declaration ← match declaration with
    | some text => some <$> Pattern.parse text
    | none => pure none
  pure { name, extensions, delimiters, declaration }

/-- Whether a file has an extension of the dialect. -/
def handles (dialect : Dialect) (path : String) : Bool :=
  (SourcePath.extension? path).any fun extension => dialect.extensions.contains extension

/-- How the dialect tells declarations from other code. -/
def heuristic (dialect : Dialect) : Heuristic where
  isDeclaration code := dialect.declaration.any fun pattern => pattern.occursIn code
  symbolName code := dialect.declaration.bind fun pattern => pattern.firstGroup? code

end Dialect

/-- Dialects by name, in the order of their registration. -/
structure Dialects where
  list : List Dialect := []

namespace Dialects

/-- Adds a dialect, in place of one with the same name. -/
def register (dialects : Dialects) (dialect : Dialect) : Dialects :=
  ⟨dialects.list.filter (fun d => d.name ≠ dialect.name) ++ [dialect]⟩

/-- The latest dialect that handles a file. -/
def detect? (dialects : Dialects) (path : String) : Option Dialect :=
  dialects.list.reverse.find? fun d => d.handles path

/-- The dialect with a name. -/
def get? (dialects : Dialects) (name : String) : Option Dialect :=
  dialects.list.find? fun d => d.name = name

/-- The names in order. -/
def names (dialects : Dialects) : List String :=
  dialects.list.map Dialect.name

end Dialects

end Marginalia
