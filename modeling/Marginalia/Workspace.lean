/-
The files a command can see.

A workspace answers for a path what is there. A directory comes with all
files below it, by their paths relative to it. The workspace of a list of
files follows paths step by step: each step but the last has to lead to a
directory, and so does the last one if a slash follows it.
-/
import Marginalia.SourcePath

set_option autoImplicit false

namespace Marginalia

/-- What is at a path. -/
inductive Found where
  | missing
  /-- A step of the path leads through a file. -/
  | blocked
  | file (bytes : ByteArray)
  /-- A directory with all files below it. -/
  | directory (files : List (String × ByteArray))

/-- What is at every path. -/
abbrev Workspace := String → Found

namespace Found

/-- Whether there is a file. -/
def isFile : Found → Bool
  | .file _ => true
  | _ => false

/-- The text of a file, or why it cannot be read. -/
def read : Found → Except String String
  | .missing => .error "No such file or directory (os error 2)"
  | .blocked => .error "Not a directory (os error 20)"
  | .directory _ => .error "Is a directory (os error 21)"
  | .file bytes =>
    match String.fromUTF8? bytes with
    | some text => .ok text
    | none => .error "stream did not contain valid UTF-8"

end Found

namespace Workspace

/-- A file with its bytes, or a directory, at a list of names. -/
structure Node where
  names : List String
  bytes : Option ByteArray

/-- What is at a list of names. -/
def at? (nodes : List Node) (names : List String) : Found :=
  match nodes.find? fun n => n.names = names with
  | some ⟨_, some bytes⟩ => .file bytes
  | other =>
    let below := nodes.filter fun n => names.length < n.names.length && names.isPrefixOf n.names
    if names.isEmpty || other.isSome || !below.isEmpty then
      .directory <| below.filterMap fun n => n.bytes.map fun bytes =>
        ("/".intercalate (n.names.drop names.length), bytes)
    else .missing

/-- Follows the pieces of a path from a list of names. -/
def follow (nodes : List Node) : List String → List String → Found
  | names, [] => at? nodes names
  | names, piece :: pieces =>
    match at? nodes names with
    | .missing => .missing
    | .file _ | .blocked => .blocked
    | .directory _ =>
      if piece.isEmpty || piece == "." then follow nodes names pieces
      else if piece == ".." then follow nodes names.dropLast pieces
      else follow nodes (names ++ [piece]) pieces

/-- The pieces of a path between its slashes. -/
def pieces (path : String) : List String :=
  (Text.pieces '/' path.toList).map String.ofList

/-- The workspace of a list of files with their bytes, and of directories without any. -/
def ofList (files : List (String × Option ByteArray)) : Workspace :=
  let nodes := files.map fun (path, bytes) =>
    Node.mk ((pieces path).filter fun p => !p.isEmpty && p ≠ ".") bytes
  fun path => if path.isEmpty || path.startsWith "/" then .missing else follow nodes [] (pieces path)

end Workspace

end Marginalia
