/-
The literals of TOML: strings, numbers, and dates and times.

Each reader takes a text and gives the literal at its start and the rest of
the text, or nothing if there is no such literal there. Strings come in four
kinds, in one line or several and with escapes or without. Of dates and times
only their form and ranges matter here, so they are kept as they are written.
-/
import Marginalia.Data.Value

set_option autoImplicit false

namespace Marginalia.Toml

/-- Reads something at the start of a text. -/
abbrev Reader (α : Type) := List Char → Option (α × List Char)

/-! ## Characters -/

/-- A blank or a tab. -/
def isSpace (c : Char) : Bool :=
  c = ' ' || c = '\t'

/-- A character that may stand in a line: no control character but the tab. -/
def isInLine (c : Char) : Bool :=
  c = '\t' || (0x20 ≤ c.toNat && c.toNat ≠ 0x7F)

/-- The text behind a line end at its start. -/
def newline? : List Char → Option (List Char)
  | '\n' :: rest => some rest
  | '\r' :: '\n' :: rest => some rest
  | _ => none

/-- The text behind spaces. -/
def skipSpaces (text : List Char) : List Char :=
  text.dropWhile isSpace

/-- The value of a hexadecimal digit. -/
def hexValue? (c : Char) : Option Nat :=
  if c.isDigit then some (c.toNat - 48)
  else if 'a' ≤ c && c ≤ 'f' then some (c.toNat - 87)
  else if 'A' ≤ c && c ≤ 'F' then some (c.toNat - 55)
  else none

/-- The character with the code that hexadecimal digits spell. -/
def charOfHex? (digits : List Char) : Option Char := do
  let values ← digits.mapM hexValue?
  let n := values.foldl (fun n d => 16 * n + d) 0
  if h : n.isValidChar then some (Char.ofNatAux n h) else none

/-- The character that a letter behind a backslash stands for. -/
def shortEscape? : Char → Option Char
  | 'b' => some '\x08'
  | 't' => some '\t'
  | 'n' => some '\n'
  | 'f' => some '\x0c'
  | 'r' => some '\r'
  | '"' => some '"'
  | '\\' => some '\\'
  | _ => none

/-! ## Strings -/

/-- A character in front of a string that is being read. -/
def before (c : Char) (result : Option (List Char × List Char)) :
    Option (List Char × List Char) :=
  result.map fun (inside, rest) => (c :: inside, rest)

/-- A string with escapes, behind its opening quote. -/
def basic : Reader (List Char)
  | '"' :: rest => some ([], rest)
  | '\\' :: 'u' :: a :: b :: c :: d :: rest =>
    (charOfHex? [a, b, c, d]).bind fun e => before e (basic rest)
  | '\\' :: 'U' :: a :: b :: c :: d :: e :: f :: g :: h :: rest =>
    (charOfHex? [a, b, c, d, e, f, g, h]).bind fun e => before e (basic rest)
  | '\\' :: c :: rest => (shortEscape? c).bind fun e => before e (basic rest)
  | '\\' :: [] => none
  | c :: rest => if isInLine c then before c (basic rest) else none
  | [] => none

/-- A string without escapes, behind its opening quote. -/
def literal : Reader (List Char)
  | '\'' :: rest => some ([], rest)
  | c :: rest => if isInLine c then before c (literal rest) else none
  | [] => none

/-- A string with escapes over lines, behind its opening quotes. A backslash at the end of a line
also takes the line ends and spaces that follow; the flag says that these are being passed over. Up
to two quotes may stand right before the closing ones. -/
def multiBasic : Bool → Reader (List Char)
  | true, '\n' :: rest => multiBasic true rest
  | true, '\r' :: '\n' :: rest => multiBasic true rest
  | true, ' ' :: rest => multiBasic true rest
  | true, '\t' :: rest => multiBasic true rest
  | _, '"' :: '"' :: '"' :: '"' :: '"' :: rest => some (['"', '"'], rest)
  | _, '"' :: '"' :: '"' :: '"' :: rest => some (['"'], rest)
  | _, '"' :: '"' :: '"' :: rest => some ([], rest)
  | _, '\\' :: 'u' :: a :: b :: c :: d :: rest =>
    (charOfHex? [a, b, c, d]).bind fun e => before e (multiBasic false rest)
  | _, '\\' :: 'U' :: a :: b :: c :: d :: e :: f :: g :: h :: rest =>
    (charOfHex? [a, b, c, d, e, f, g, h]).bind fun e => before e (multiBasic false rest)
  | _, '\\' :: c :: rest =>
    match shortEscape? c with
    | some e => before e (multiBasic false rest)
    | none =>
      if (newline? (skipSpaces (c :: rest))).isSome then
        -- The first of the spaces and line ends is `c` itself.
        multiBasic true rest
      else none
  | _, '\n' :: rest => before '\n' (multiBasic false rest)
  | _, '\r' :: '\n' :: rest => before '\n' (multiBasic false rest)
  | _, c :: rest =>
    if c ≠ '\\' && isInLine c then before c (multiBasic false rest) else none
  | _, [] => none

/-- A string without escapes over lines, behind its opening quotes. -/
def multiLiteral : Reader (List Char)
  | '\'' :: '\'' :: '\'' :: '\'' :: '\'' :: rest => some (['\'', '\''], rest)
  | '\'' :: '\'' :: '\'' :: '\'' :: rest => some (['\''], rest)
  | '\'' :: '\'' :: '\'' :: rest => some ([], rest)
  | '\n' :: rest => before '\n' (multiLiteral rest)
  | '\r' :: '\n' :: rest => before '\n' (multiLiteral rest)
  | c :: rest => if isInLine c then before c (multiLiteral rest) else none
  | [] => none

/-- The text behind a line end at its start, or the text itself. -/
def dropNewline (text : List Char) : List Char :=
  (newline? text).getD text

/-- A string of any kind. -/
def string : Reader String := fun text =>
  let chars := match text with
    | '"' :: '"' :: '"' :: rest => multiBasic false (dropNewline rest)
    | '\'' :: '\'' :: '\'' :: rest => multiLiteral (dropNewline rest)
    | '"' :: rest => basic rest
    | '\'' :: rest => literal rest
    | _ => none
  chars.map fun (inside, rest) => (String.ofList inside, rest)

/-! ## Numbers -/

/-- Digits, with single underscores between them. -/
def digits (isDigit : Char → Bool) : List Char → List Char × List Char
  | c :: '_' :: d :: rest =>
    if !isDigit c then ([], c :: '_' :: d :: rest)
    else if !isDigit d then ([c], '_' :: d :: rest)
    else
      let (ds, rest) := digits isDigit (d :: rest)
      (c :: ds, rest)
  | c :: rest =>
    if !isDigit c then ([], c :: rest)
    else
      let (ds, rest) := digits isDigit rest
      (c :: ds, rest)
  | [] => ([], [])

/-- The digits of a decimal number without leading zeros. -/
def decimalDigits : Reader (List Char)
  | '0' :: rest => some (['0'], rest)
  | text =>
    match digits Char.isDigit text with
    | ([], _) => none
    | (ds, rest) => some (ds, rest)

/-- A sign, if there is one: whether it is a minus, and the rest. -/
def sign : List Char → Bool × List Char
  | '+' :: rest => (false, rest)
  | '-' :: rest => (true, rest)
  | text => (false, text)

/-- The number that digits spell. -/
def valueOf (base : Nat) (ds : List Char) : Nat :=
  ds.foldl (fun n c => base * n + (hexValue? c).getD 0) 0

/-- An integer of sixty-four bits. -/
def sized (n : Int) (rest : List Char) : Option (Value × List Char) :=
  if -0x8000000000000000 ≤ n && n < 0x8000000000000000 then some (.int n, rest) else none

/-- An integer with its base in front. -/
def basedInteger (base : Nat) (isDigit : Char → Bool) : Reader Value := fun text =>
  match digits isDigit text with
  | ([], _) => none
  | (ds, rest) => sized (valueOf base ds) rest

/-- An integer. -/
def integer : Reader Value
  | '0' :: 'x' :: rest => basedInteger 16 (fun c => (hexValue? c).isSome) rest
  | '0' :: 'o' :: rest => basedInteger 8 (fun c => '0' ≤ c && c ≤ '7') rest
  | '0' :: 'b' :: rest => basedInteger 2 (fun c => c = '0' || c = '1') rest
  | text => do
    let (negative, text) := sign text
    let (ds, rest) ← decimalDigits text
    let n : Int := valueOf 10 ds
    sized (if negative then -n else n) rest

/-- The digits behind an exponent mark. -/
def exponent? : Reader Unit
  | c :: rest =>
    if c = 'e' || c = 'E' then
      match digits Char.isDigit (sign rest).2 with
      | ([], _) => none
      | (_, rest) => some ((), rest)
    else none
  | [] => none

/-- A number with a fraction, an exponent or both, or one that is none. -/
def real : Reader Value := fun text => do
  let (_, unsigned) := sign text
  let rest ← match unsigned with
    | 'i' :: 'n' :: 'f' :: rest => some rest
    | 'n' :: 'a' :: 'n' :: rest => some rest
    | _ => do
      let (_, rest) ← decimalDigits unsigned
      match rest with
      | '.' :: fraction =>
        match digits Char.isDigit fraction with
        | ([], _) => none
        | (_, rest) => some (((exponent? rest).map (·.2)).getD rest)
      | _ => (exponent? rest).map (·.2)
  some (.real (String.ofList (text.take (text.length - rest.length))), rest)

/-! ## Dates and times -/

/-- A number of exactly `count` digits between two bounds. -/
def ranged (count low high : Nat) : Reader Nat := fun text =>
  let ds := text.take count
  let n := valueOf 10 ds
  if ds.length = count && ds.all Char.isDigit && low ≤ n && n ≤ high then
    some (n, text.drop count)
  else none

/-- The text behind a character at its start. -/
def expect (c : Char) : List Char → Option (List Char)
  | d :: rest => if d = c then some rest else none
  | [] => none

/-- The number of days of a month. -/
def daysIn (year month : Nat) : Nat :=
  if month = 2 then
    if year % 4 = 0 && (year % 100 ≠ 0 || year % 400 = 0) then 29 else 28
  else if month = 4 || month = 6 || month = 9 || month = 11 then 30
  else 31

/-- The text behind a date. -/
def date? (text : List Char) : Option (List Char) := do
  let (year, rest) ← ranged 4 0 9999 text
  let rest ← expect '-' rest
  let (month, rest) ← ranged 2 1 12 rest
  let rest ← expect '-' rest
  let (_, rest) ← ranged 2 1 (daysIn year month) rest
  some rest

/-- The text behind a time. -/
def time? (text : List Char) : Option (List Char) := do
  let (_, rest) ← ranged 2 0 23 text
  let rest ← expect ':' rest
  let (_, rest) ← ranged 2 0 59 rest
  let rest ← expect ':' rest
  let (_, rest) ← ranged 2 0 60 rest
  match rest with
  | '.' :: d :: fraction =>
    if d.isDigit then some (fraction.dropWhile Char.isDigit) else some rest
  | _ => some rest

/-- The text behind the offset of a time zone. -/
def offset? : List Char → Option (List Char)
  | 'Z' :: rest => some rest
  | 'z' :: rest => some rest
  | c :: rest =>
    if c = '+' || c = '-' then do
      let (_, rest) ← ranged 2 0 23 rest
      let rest ← expect ':' rest
      let (_, rest) ← ranged 2 0 59 rest
      some rest
    else none
  | [] => none

/-- A date, a time or both. -/
def moment : Reader Value := fun text => do
  let rest ← match date? text with
    | none => time? text
    | some rest =>
      match rest with
      | c :: behind =>
        if c = 'T' || c = 't' || c = ' ' then
          match time? behind with
          | some rest => some ((offset? rest).getD rest)
          | none => some rest
        else some rest
      | [] => some rest
  some (.moment (String.ofList (text.take (text.length - rest.length))), rest)

/-- Whether a text starts like a date or a time. -/
def startsMoment (text : List Char) : Bool :=
  let lead := (text.takeWhile Char.isDigit).length
  (lead = 4 && (text.drop 4).head? = some '-') || (lead = 2 && (text.drop 2).head? = some ':')

/-- A number, a date or a time. -/
def numberOrMoment : Reader Value := fun text =>
  if startsMoment text then moment text else (real text).or (integer text)

end Marginalia.Toml
