/-
TOML documents: lines that define tables and keys, and what they add up to.

A document is read line by line into a tree of tables. Each table remembers
how it came about, because that decides what later lines may do to it: a
table that only stands above others may still get a header of its own, one
made by dotted keys may not, and one with a header takes no dotted keys from
outside. A key or a table is never defined twice.
-/
import Marginalia.Toml.Literal

set_option autoImplicit false

namespace Marginalia.Toml

/-! ## Tables in the making -/

/-- What a key of a table stands for. -/
inductive Item where
  /-- A value, which nothing can be added to. -/
  | value (v : Value)
  /-- A table: whether it has no header of its own, whether dotted keys made it, and its keys. -/
  | table (implicit dotted : Bool) (entries : List (String × Item))
  /-- A list of tables with headers. -/
  | tables (elements : List (List (String × Item)))
deriving Inhabited

/-- The keys of a table. -/
abbrev Entries := List (String × Item)

/-- Puts an item in place of the one with the same key, or behind all others. -/
def Entries.put (entries : Entries) (key : String) (item : Item) : Entries :=
  if entries.any fun e => e.1 == key then
    entries.map fun e => if e.1 == key then (key, item) else e
  else entries ++ [(key, item)]

/-- Changes the table at a path below a table, which is told whether dotted keys made it. Tables
that are missing on the way are put in; `dotted` says on behalf of what. -/
def changeAt (dotted : Bool) (f : Bool → Entries → Option Entries) :
    List String → Bool → Entries → Option Entries
  | [], here, entries => f here entries
  | key :: path, _, entries =>
    match List.lookup key entries with
    | none => do
      let inner ← changeAt dotted f path dotted []
      some (Entries.put entries key (.table true dotted inner))
    | some (.value _) => none
    | some (.tables elements) => do
      let last ← elements.getLast?
      let inner ← changeAt dotted f path false last
      some (Entries.put entries key (.tables (elements.dropLast ++ [inner])))
    | some (.table implicit byDots inner) =>
      if dotted && !implicit then none
      else do
        let inner ← changeAt dotted f path byDots inner
        some (Entries.put entries key (.table implicit byDots inner))

/-- Adds a key with a value. The path in front of the key is what was written before its last dot. -/
def addKey (path : List String) (key : String) (v : Value) (here : Bool) (entries : Entries) :
    Option Entries :=
  changeAt true
    (fun byDots entries =>
      if byDots == path.isEmpty || (List.lookup key entries).isSome then none
      else some (Entries.put entries key (.value v)))
    path here entries

/-- Adds a table with a header of its own. -/
def addTable (path : List String) (key : String) (root : Entries) : Option Entries :=
  changeAt false
    (fun _ entries =>
      match List.lookup key entries with
      | none => some (Entries.put entries key (.table false false []))
      | some (.table true false inner) => some (Entries.put entries key (.table false false inner))
      | _ => none)
    path false root

/-- Adds a table to a list of tables. -/
def addElement (path : List String) (key : String) (root : Entries) : Option Entries :=
  changeAt false
    (fun _ entries =>
      match List.lookup key entries with
      | none => some (Entries.put entries key (.tables [[]]))
      | some (.tables elements) => some (Entries.put entries key (.tables (elements ++ [[]])))
      | _ => none)
    path false root

mutual

/-- The value of an item. -/
def Item.toValue : Item → Value
  | .value v => v
  | .table _ _ entries => .record (entriesToFields entries)
  | .tables elements => .list (elementsToValues elements)

/-- The fields of a table. -/
def entriesToFields : List (String × Item) → List (String × Value)
  | [] => []
  | (key, item) :: entries => (key, item.toValue) :: entriesToFields entries

/-- The values of tables. -/
def elementsToValues : List (List (String × Item)) → List Value
  | [] => []
  | entries :: elements => .record (entriesToFields entries) :: elementsToValues elements

end

/-! ## Keys -/

/-- Whether a character may stand in a key without quotes. -/
def inBareKey (c : Char) : Bool :=
  c.isAlphanum || c = '_' || c = '-'

/-- A key without dots. -/
def simpleKey : Reader String
  | '"' :: rest => (basic rest).map fun (inside, rest) => (String.ofList inside, rest)
  | '\'' :: rest => (literal rest).map fun (inside, rest) => (String.ofList inside, rest)
  | text =>
    let bare := text.takeWhile inBareKey
    if bare.isEmpty then none else some (String.ofList bare, text.drop bare.length)

/-- A key with up to as many dots as the number says: what is before its last dot, and what is
behind it. -/
def key : Nat → Reader (List String × String)
  | 0, _ => none
  | n + 1, text => do
    let (first, rest) ← simpleKey (skipSpaces text)
    match skipSpaces rest with
    | '.' :: rest => do
      let ((path, last), rest) ← key n rest
      some ((first :: path, last), rest)
    | rest => some (([], first), rest)

/-- The most parts a key may have, and the most levels values may nest. -/
def depthLimit : Nat := 79

/-! ## Values -/

/-- The text behind a comment, up to the end of its line. -/
def comment? : List Char → Option (List Char)
  | '#' :: rest =>
    let rest := rest.dropWhile isInLine
    if rest.isEmpty || (newline? rest).isSome then some rest else none
  | _ => none

/-- The text behind spaces, comments and line ends. -/
def skipLines : Nat → List Char → Option (List Char)
  | 0, text => some text
  | n + 1, text =>
    match skipSpaces text with
    | '#' :: rest => do
      let rest ← comment? ('#' :: rest)
      let rest ← newline? rest
      skipLines n rest
    | rest =>
      match newline? rest with
      | some rest => skipLines n rest
      | none => some rest

mutual

/-- A value. The first number bounds the steps, the second the levels still allowed. -/
def value : Nat → Nat → Reader Value
  | 0, _, _ => none
  | n + 1, depth, text =>
    match text with
    | '[' :: rest =>
      match depth with
      | 0 => none
      | depth + 1 => (elements n depth [] rest).map fun (vs, rest) => (.list vs, rest)
    | '\x7b' :: rest =>
      match depth with
      | 0 => none
      | depth + 1 =>
        match skipSpaces rest with
        | '\x7d' :: rest => some (.record [], rest)
        | rest => (pairs n depth [] rest).map fun (entries, rest) =>
            (.record (entriesToFields entries), rest)
    | 't' :: 'r' :: 'u' :: 'e' :: rest => some (.bool true, rest)
    | 'f' :: 'a' :: 'l' :: 's' :: 'e' :: rest => some (.bool false, rest)
    | '"' :: _ | '\'' :: _ => (string text).map fun (s, rest) => (.text s, rest)
    | _ => numberOrMoment text

/-- The elements of a list up to its bracket, behind those already read, which are kept the latest
first. -/
def elements : Nat → Nat → List Value → Reader (List Value)
  | 0, _, _, _ => none
  | n + 1, depth, done, text => do
    let text ← skipLines text.length text
    match text with
    | ']' :: rest => some (done.reverse, rest)
    | _ =>
      let (v, rest) ← value n depth text
      let rest ← skipLines rest.length rest
      match rest with
      | ',' :: rest => elements n depth (v :: done) rest
      | ']' :: rest => some ((v :: done).reverse, rest)
      | _ => none

/-- The keys and values of an inline table up to its brace. -/
def pairs : Nat → Nat → Entries → Reader Entries
  | 0, _, _, _ => none
  | n + 1, depth, entries, text => do
    let ((path, last), rest) ← key depthLimit text
    let rest ← expect '=' rest
    let (v, rest) ← value n depth (skipSpaces rest)
    let entries ← addKey path last v false entries
    match skipSpaces rest with
    | ',' :: rest => pairs n depth entries rest
    | '\x7d' :: rest => some (entries, rest)
    | _ => none

end

/-! ## Documents -/

/-- The text behind the end of a line that may end in spaces and a comment. -/
def lineEnd? (text : List Char) : Option (List Char) :=
  let text := skipSpaces text
  let text := match text with
    | '#' :: _ => comment? text
    | _ => some text
  text.bind fun
    | [] => some []
    | rest => newline? rest

/-- A document in the making: everything so far, and the table that plain keys belong to. -/
structure Draft where
  root : Entries := []
  current : List String := []

/-- Reads one line: a header, a key with its value, or nothing. -/
def line (draft : Draft) (text : List Char) : Option (Draft × List Char) :=
  match skipSpaces text with
  | '[' :: '[' :: rest => do
    let ((path, last), rest) ← key depthLimit rest
    let rest ← expect ']' rest
    let rest ← expect ']' rest
    let rest ← lineEnd? rest
    let root ← addElement path last draft.root
    some (⟨root, path ++ [last]⟩, rest)
  | '[' :: rest => do
    let ((path, last), rest) ← key depthLimit rest
    let rest ← expect ']' rest
    let rest ← lineEnd? rest
    let root ← addTable path last draft.root
    some (⟨root, path ++ [last]⟩, rest)
  | rest =>
    match lineEnd? rest with
    | some rest => some (draft, rest)
    | none => do
      let ((path, last), rest) ← key depthLimit rest
      let rest ← expect '=' rest
      let rest := skipSpaces rest
      let (v, rest) ← value (2 * rest.length + 2) depthLimit rest
      let rest ← lineEnd? rest
      let root ← changeAt false (addKey path last v) draft.current false draft.root
      some ({ draft with root }, rest)

/-- Reads lines to the end of the text; the number bounds how many there are. -/
def lines : Nat → Draft → List Char → Option Draft
  | _, draft, [] => some draft
  | 0, _, _ => none
  | n + 1, draft, text => do
    let (draft, rest) ← line draft text
    lines n draft rest

/-- The record that a document spells. A byte order mark in front says nothing. -/
def parse (text : String) : Option Value :=
  let chars := match text.toList with
    | '\uFEFF' :: rest => rest
    | chars => chars
  (lines (chars.length + 1) {} chars).map fun draft => .record (entriesToFields draft.root)

end Marginalia.Toml
