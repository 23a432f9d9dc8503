/-
Values written as JSON text, on one line or over indented lines.

Only what has to be escaped is: the quote, the backslash and the control
characters below the space, the common ones by their short names. All other
characters stand for themselves.
-/
import Marginalia.Data.Value

set_option autoImplicit false

namespace Marginalia.Json

/-! ## Texts -/

/-- The hexadecimal digit of a number below sixteen. -/
def hexDigit (n : Nat) : Char :=
  if n < 10 then Char.ofNat (48 + n) else Char.ofNat (87 + n)

/-- A character inside quotes. -/
def escapeChar (c : Char) : List Char :=
  if c = '"' then ['\\', '"']
  else if c = '\\' then ['\\', '\\']
  else if c = '\n' then ['\\', 'n']
  else if c = '\r' then ['\\', 'r']
  else if c = '\t' then ['\\', 't']
  else if c = '\x08' then ['\\', 'b']
  else if c = '\x0c' then ['\\', 'f']
  else if c.toNat < 0x20 then
    ['\\', 'u', '0', '0', hexDigit (c.toNat / 16), hexDigit (c.toNat % 16)]
  else [c]

/-- A text in quotes. -/
def quote (s : String) : String :=
  "\"" ++ String.ofList (s.toList.flatMap escapeChar) ++ "\""

/-! ## Values -/

mutual

/-- A value on one line, without blanks. -/
def compact : Value → String
  | .null => "null"
  | .bool b => if b then "true" else "false"
  | .int n => toString n
  | .real literal => literal
  | .moment literal => quote literal
  | .text s => quote s
  | .list items => "[" ++ ",".intercalate (compactItems items) ++ "]"
  | .record fields => "\x7b" ++ ",".intercalate (compactFields fields) ++ "\x7d"

/-- Each item on one line. -/
def compactItems : List Value → List String
  | [] => []
  | item :: items => compact item :: compactItems items

/-- Each field on one line. -/
def compactFields : List (String × Value) → List String
  | [] => []
  | (name, value) :: fields => (quote name ++ ":" ++ compact value) :: compactFields fields

end

/-- Lines between brackets, each one level further in than the closing bracket. -/
def bracketed (start stop : String) (depth : Nat) (lines : List String) : String :=
  if lines.isEmpty then start ++ stop
  else
    let indent := fun n => "\n" ++ String.ofList (List.replicate (2 * n) ' ')
    start ++ indent (depth + 1) ++ ("," ++ indent (depth + 1)).intercalate lines
      ++ indent depth ++ stop

mutual

/-- A value over lines, two blanks of indentation for a level. -/
def indented (depth : Nat) : Value → String
  | .list items => bracketed "[" "]" depth (indentedItems (depth + 1) items)
  | .record fields => bracketed "\x7b" "\x7d" depth (indentedFields (depth + 1) fields)
  | .null => compact .null
  | .bool b => compact (.bool b)
  | .int n => compact (.int n)
  | .real literal => compact (.real literal)
  | .moment literal => compact (.moment literal)
  | .text s => compact (.text s)

/-- Each item over lines. -/
def indentedItems (depth : Nat) : List Value → List String
  | [] => []
  | item :: items => indented depth item :: indentedItems depth items

/-- Each field over lines. -/
def indentedFields (depth : Nat) : List (String × Value) → List String
  | [] => []
  | (name, value) :: fields =>
    (quote name ++ ": " ++ indented depth value) :: indentedFields depth fields

end

/-- A value over lines. -/
def pretty (value : Value) : String :=
  indented 0 value

end Marginalia.Json
