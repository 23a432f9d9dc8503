/-
Documents: the values that settings files and serialised results are made of,
and how typed data is read back out of them.

A record keeps its fields in the order they were written. Reading is by
field: a field may be required, may be left out, or may have a default, and
fields nobody asks for are passed over. A record may also be written as a bare
list of its fields in their declared order, and then only a field with a
default may be missing.
-/

set_option autoImplicit false

namespace Marginalia

/-- A structured value. -/
inductive Value where
  | null
  | bool (value : Bool)
  | int (value : Int)
  /-- A number that is not written as an integer, as it is written. -/
  | real (literal : String)
  /-- A date, a time or both, as it is written. -/
  | moment (literal : String)
  | text (value : String)
  | list (items : List Value)
  | record (fields : List (String × Value))
deriving Repr, Inhabited

namespace Value

/-! ## Writing -/

/-- A natural number. -/
def nat (n : Nat) : Value :=
  .int n

/-- A text that may be absent. -/
def optText : Option String → Value
  | some s => .text s
  | none => .null

/-- A list of texts. -/
def texts (items : List String) : Value :=
  .list (items.map .text)

/-- A field that is left out where there is no value. -/
def optField {α : Type} (name : String) (value : Option α) (encode : α → Value) :
    List (String × Value) :=
  match value with
  | some v => [(name, encode v)]
  | none => []

/-! ## Reading -/

/-- The numbers that count things are below this bound, the first that needs more than sixty-four
bits. -/
def natBound : Nat := 0x10000000000000000

/-- A number that counts something. -/
def toNat? : Value → Option Nat
  | .int n => if 0 ≤ n ∧ n.toNat < natBound then some n.toNat else none
  | _ => none

/-- A text. -/
def toText? : Value → Option String
  | .text s => some s
  | _ => none

/-- A truth value. -/
def toBool? : Value → Option Bool
  | .bool b => some b
  | _ => none

/-- A text of exactly one character. -/
def toChar? : Value → Option Char
  | .text s =>
    match s.toList with
    | [c] => some c
    | _ => none
  | _ => none

/-- A list with every item read. -/
def toList? {α : Type} (decode : Value → Option α) : Value → Option (List α)
  | .list items => items.mapM decode
  | _ => none

/-- An absent value, or one that is read. -/
def toOption? {α : Type} (decode : Value → Option α) : Value → Option (Option α)
  | .null => some none
  | v => (decode v).map some

/-- One of several names: its text, or a record with only that name and nothing in it. -/
def toName? : Value → Option String
  | .text s => some s
  | .record [(name, .null)] => some name
  | .record [(name, .list [])] => some name
  | .record [(name, .record [])] => some name
  | _ => none

end Value

/-! ## Fields -/

/-- The fields of a record that is being read. -/
structure Fields where
  entries : List (String × Value)
  /-- Whether the record was written as a bare list. -/
  positional : Bool

namespace Fields

/-- The fields of a value, for a record whose fields are declared in the order of `names`. -/
def of? (names : List String) : Value → Option Fields
  | .record fields => some ⟨fields, false⟩
  | .list items =>
    if names.length < items.length then none else some ⟨names.zip items, true⟩
  | .moment _ => some ⟨[], false⟩
  | _ => none

/-- The value of a field. -/
def find? (fields : Fields) (name : String) : Option Value :=
  (fields.entries.find? fun e => e.1 == name).map (·.2)

/-- A field that has to be there. -/
def required {α : Type} (fields : Fields) (name : String) (decode : Value → Option α) : Option α :=
  (fields.find? name).bind decode

/-- A field that may be left out or be empty. -/
def optional {α : Type} (fields : Fields) (name : String) (decode : Value → Option α) :
    Option (Option α) :=
  match fields.find? name with
  | some v => v.toOption? decode
  | none => if fields.positional then none else some none

/-- A field that stands for `default` where it is left out. -/
def orDefault {α : Type} (fields : Fields) (name : String) (default : α)
    (decode : Value → Option α) : Option α :=
  match fields.find? name with
  | some v => decode v
  | none => some default

end Fields

end Marginalia
