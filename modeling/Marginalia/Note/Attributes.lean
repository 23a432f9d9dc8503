/-
The attribute groups of a marker: `{alias:..}`, `{title:..}` and
`{do-not-collect}`, written one after the other right behind it.

Groups are read from the left as long as the text goes on with a brace. Each
key may be given once; the first group that breaks a rule decides the fault.
-/
import Marginalia.Text.Blank
import Marginalia.Text.Cut

set_option autoImplicit false

namespace Marginalia

/-- What the attribute groups of a marker say. -/
structure Attributes where
  nickname : Option String := none
  title : Option String := none
  doNotCollect : Bool := false
deriving DecidableEq, Repr, Inhabited

/-- Why attribute groups are refused. -/
inductive AttributeFault where
  /-- A brace is not closed. -/
  | unclosed
  /-- A key that takes a value has none. -/
  | needsValue (key : String)
  /-- A key that takes no value has one. -/
  | takesNoValue (key : String)
  /-- The value of a key is blank. -/
  | emptyValue (key : String)
  /-- A key is given twice. -/
  | duplicate (key : String)
  /-- There is no such key. -/
  | unsupported (key : String)
deriving DecidableEq, Repr

/-- The wording of a refusal. -/
def AttributeFault.message : AttributeFault → String
  | .unclosed => "unterminated attribute brace, expected `\x7d`"
  | .needsValue key => s!"attribute `{key}` needs a value"
  | .takesNoValue key => s!"attribute `{key}` takes no value"
  | .emptyValue key => s!"empty {key}"
  | .duplicate key => s!"duplicate attribute `{key}`"
  | .unsupported key => s!"unsupported attribute `{key}`"

namespace Attributes

/-- Whether nothing is said. -/
def isEmpty (a : Attributes) : Bool :=
  a.nickname.isNone && a.title.isNone && !a.doNotCollect

/-- A group split at its first colon, both sides without blank ends. -/
def split (group : List Char) : String × Option String :=
  match Text.cutAt [':'] group with
  | some (key, value) => (String.ofList (Text.trim key), some (String.ofList (Text.trim value)))
  | none => (String.ofList (Text.trim group), none)

/-- A value for a key that has none yet. -/
def fill (key : String) (present : Option String) (value : String) :
    Except AttributeFault (Option String) :=
  if value.isEmpty then .error (.emptyValue key)
  else if present.isSome then .error (.duplicate key)
  else .ok (some value)

/-- The attributes with one more group. -/
def add (a : Attributes) (group : List Char) : Except AttributeFault Attributes :=
  match split group with
  | ("alias", some value) => do
    let nickname ← fill "alias" a.nickname value
    pure { a with nickname }
  | ("title", some value) => do
    let title ← fill "title" a.title value
    pure { a with title }
  | ("do-not-collect", none) =>
    if a.doNotCollect then .error (.duplicate "do-not-collect")
    else .ok { a with doNotCollect := true }
  | ("do-not-collect", some _) => .error (.takesNoValue "do-not-collect")
  | ("alias", none) => .error (.needsValue "alias")
  | ("title", none) => .error (.needsValue "title")
  | (key, _) => .error (.unsupported key)

/-- Reads groups as long as there are any, on top of what is known. -/
def readFrom (a : Attributes) (text : List Char) :
    Except AttributeFault (Attributes × List Char) :=
  match text with
  | '\x7b' :: inside =>
    match _h : Text.cutAt ['\x7d'] inside with
    | none => .error .unclosed
    | some (group, rest) => do
      let a ← a.add group
      a.readFrom rest
  | text => .ok (a, text)
termination_by text.length
decreasing_by
  have := congrArg List.length (Text.eq_append_of_cutAt _h)
  simp only [List.length_append, List.length_cons] at *
  omega

/-- The attributes in front of a text, and the text behind them. -/
def read (text : List Char) : Except AttributeFault (Attributes × List Char) :=
  readFrom {} text

end Attributes

end Marginalia
