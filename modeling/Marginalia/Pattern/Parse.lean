/-
Reading a pattern from its text.

The reader goes through the text from the left with a small state: what is
unread, the flags in force, and the groups opened so far. Flags set inside a
group hold up to the end of that group. A text that is not a pattern has a
fault, and the first fault ends the reading.

Recursion is on a budget that is a multiple of the length of the text. Every
call either takes a character or hands over to one that does, so a text never
runs out of it.
-/
import Marginalia.Pattern
import Marginalia.Text.Cut

set_option autoImplicit false

namespace Marginalia.Pattern

/-- Why a text is no pattern. -/
inductive Fault where
  | unclosedGroup
  | unopenedGroup
  | unclosedClass
  | badRange
  | badClassItem
  | badEscape
  | badHex
  | unknownProperty
  | nothingToRepeat
  | badRepetition
  | badFlag
  | badGroupName
  | lookAround
  | backReference
  | notText
  | tooLong
deriving DecidableEq, Repr

/-- The flags that change what the text of a pattern means. -/
structure Flags where
  anyCase : Bool := false
  multiLine : Bool := false
  dotAll : Bool := false
  swapGreed : Bool := false
  unicode : Bool := true
  spaced : Bool := false
  anyLineEnd : Bool := false
deriving DecidableEq, Repr

/-- How far the reader is. -/
structure Reader where
  rest : List Char
  flags : Flags := {}
  groups : Nat := 0
  names : List String := []

/-- Reading, up to the first fault. -/
abbrev Read := StateT Reader (Except Fault)

namespace Read

/-- The next character. -/
def peek : Read (Option Char) := do
  return (← get).rest.head?

/-- The character after the next one. -/
def peekSecond : Read (Option Char) := do
  return ((← get).rest.drop 1).head?

/-- Takes the next character, which has to be there. -/
def next (fault : Fault) : Read Char := do
  let reader ← get
  match reader.rest with
  | c :: rest =>
    set { reader with rest }
    return c
  | [] => throw fault

/-- Takes a literal if it is next. -/
def accept (literal : String) : Read Bool := do
  let reader ← get
  if literal.toList.isPrefixOf reader.rest then
    set { reader with rest := reader.rest.drop literal.length }
    return true
  else
    return false

/-- The text without the white space and the remarks it starts with. -/
def dropSpace : List Char → List Char
  | '#' :: text => dropRemark text
  | c :: text => if Text.isBlank c then dropSpace text else c :: text
  | [] => []
where
  /-- The text behind the line that starts here, and behind white space. -/
  dropRemark : List Char → List Char
    | '\n' :: text => dropSpace text
    | _ :: text => dropRemark text
    | [] => []

/-- Passes over white space and remarks where they say nothing. -/
def skipSpace : Read Unit :=
  modify fun reader =>
    if reader.flags.spaced then { reader with rest := dropSpace reader.rest } else reader

/-- Passes over white space. -/
def skipBlanks : Read Unit :=
  modify fun reader => { reader with rest := reader.rest.dropWhile Text.isBlank }

end Read

open Read

/-! ## Characters -/

/-- The value of a hexadecimal digit. -/
def hexValue? (c : Char) : Option Nat :=
  if c.isDigit then some (c.toNat - 48)
  else if 'a' ≤ c && c ≤ 'f' then some (c.toNat - 87)
  else if 'A' ≤ c && c ≤ 'F' then some (c.toNat - 55)
  else none

/-- The character with the code that hexadecimal digits spell. -/
def charOfHex (digits : List Char) : Read Char := do
  match digits.mapM hexValue? with
  | some (v :: vs) =>
    let n := (v :: vs).foldl (fun n d => 16 * n + d) 0
    if h : n.isValidChar then return Char.ofNatAux n h else throw .badHex
  | _ => throw .badHex

/-- A character code: in braces, or with exactly `width` digits. -/
def hexCode (width : Nat) : Read Char := do
  skipSpace
  if ← accept "\x7b" then
    let reader ← get
    let digits := reader.rest.takeWhile (· ≠ '\x7d')
    set { reader with rest := reader.rest.drop digits.length }
    let _ ← next .badHex
    charOfHex (digits.filter fun c => !(reader.flags.spaced && Text.isBlank c))
  else
    let reader ← get
    let digits := reader.rest.take width
    if digits.length < width then throw .badHex
    set { reader with rest := reader.rest.drop width }
    charOfHex digits

/-! ## Sets -/

/-- A set or its complement. -/
def signed (positive : Bool) (set : CharSet) : CharSet :=
  if positive then set else .compl set

/-- The word characters, digits or white space, of all scripts or of ASCII. -/
def namedSet (unicode : Bool) (name : Char) : CharSet :=
  match name, unicode with
  | 'd', true => .digit
  | 's', true => .blank
  | 'w', true => .word
  | 'd', false => .ranges [(0x30, 0x39)]
  | 's', false => .ranges [(0x09, 0x0D), (0x20, 0x20)]
  | _, _ => .ranges [(0x30, 0x39), (0x41, 0x5A), (0x5F, 0x5F), (0x61, 0x7A)]

/-- The sets of ASCII characters that have a name inside brackets. -/
def bracketSets : List (String × List (Nat × Nat)) :=
  [("alnum", [(0x30, 0x39), (0x41, 0x5A), (0x61, 0x7A)]),
   ("alpha", [(0x41, 0x5A), (0x61, 0x7A)]),
   ("ascii", [(0x00, 0x7F)]),
   ("blank", [(0x09, 0x09), (0x20, 0x20)]),
   ("cntrl", [(0x00, 0x1F), (0x7F, 0x7F)]),
   ("digit", [(0x30, 0x39)]),
   ("graph", [(0x21, 0x7E)]),
   ("lower", [(0x61, 0x7A)]),
   ("print", [(0x20, 0x7E)]),
   ("punct", [(0x21, 0x2F), (0x3A, 0x40), (0x5B, 0x60), (0x7B, 0x7E)]),
   ("space", [(0x09, 0x0D), (0x20, 0x20)]),
   ("upper", [(0x41, 0x5A)]),
   ("word", [(0x30, 0x39), (0x41, 0x5A), (0x5F, 0x5F), (0x61, 0x7A)]),
   ("xdigit", [(0x30, 0x39), (0x41, 0x46), (0x61, 0x66)])]

/-- A set under the flags in force. -/
def underFlags (set : CharSet) : Read CharSet := do
  return if (← get).flags.anyCase then .anyCase set else set

/-- The pattern of one character of a set. Without Unicode only ASCII sets have one, as any other
could match a part of a character. -/
def charPattern (positive : Bool) (set : CharSet) : Read Pattern := do
  if !positive && !(← get).flags.unicode then throw .notText
  return .char (signed positive set)

/-- What stands behind a backslash. -/
inductive Escape where
  | literal (c : Char)
  | set (positive : Bool) (s : CharSet)
  | look (condition : Look)

/-- The edges of words that are spelled out in braces. -/
def wordEdges : List (String × Look) :=
  [("\x7bstart\x7d", .wordStart), ("\x7bend\x7d", .wordEnd),
   ("\x7bstart-half\x7d", .wordStartHalf), ("\x7bend-half\x7d", .wordEndHalf)]

/-- The edge of a word behind `\b`. Braces that do not start like a number spell out which one. -/
def wordEdge : Read Look := do
  match (← get).rest with
  | '\x7b' :: c :: _ =>
    if c.isAlpha || c == '-' then
      for (spelling, condition) in wordEdges do
        if ← accept spelling then return condition
      throw .badEscape
    else return .wordEdge
  | _ => return .wordEdge

/-- Whether a character stands for itself behind a backslash. -/
def standsForItself (c : Char) : Bool :=
  c.toNat < 0x80 && !c.isAlphanum && c ≠ '<' && c ≠ '>'

/-- Reads what stands behind a backslash. -/
def escape : Read Escape := do
  let c ← next .badEscape
  let unicode := (← get).flags.unicode
  match c with
  | 'x' => return .literal (← hexCode 2)
  | 'u' => return .literal (← hexCode 4)
  | 'U' => return .literal (← hexCode 8)
  | 'd' | 's' | 'w' => return .set true (namedSet unicode c)
  | 'D' | 'S' | 'W' => return .set false (namedSet unicode c.toLower)
  | 'p' | 'P' => throw .unknownProperty
  | 'a' => return .literal '\x07'
  | 'f' => return .literal '\x0c'
  | 't' => return .literal '\t'
  | 'n' => return .literal '\n'
  | 'r' => return .literal '\r'
  | 'v' => return .literal '\x0b'
  | 'A' => return .look .textStart
  | 'z' => return .look .textEnd
  | 'b' => return .look (← wordEdge)
  | 'B' => return .look .noWordEdge
  | '<' => return .look .wordStart
  | '>' => return .look .wordEnd
  | _ =>
    if c.isDigit then throw .backReference
    else if standsForItself c then return .literal c
    else throw .badEscape

/-! ## Bracketed sets -/

/-- An item of a bracketed set: a character, or a set with a name. -/
def classItem : Read Escape := do
  let c ← next .unclosedClass
  if c = '\\' then
    match ← escape with
    | .look _ => throw .badClassItem
    | item => return item
  else return .literal c

/-- A set with a name such as `[:alpha:]`, if one is next. -/
def bracketSet : Read (Option CharSet) := do
  let reader ← get
  match Text.after? ['[', ':'] reader.rest with
  | none => return none
  | some text =>
    let (positive, text) := match text with
      | '^' :: text => (false, text)
      | text => (true, text)
    let name := text.takeWhile (· ≠ ':')
    match Text.after? [':', ']'] (text.drop name.length),
        bracketSets.lookup (String.ofList name) with
    | some rest, some ranges =>
      set { reader with rest }
      return some (signed positive (.ranges ranges))
    | _, _ => return none

/-- A single item or a range of a bracketed set. -/
def classRange : Read CharSet := do
  let first ← classItem
  skipSpace
  let reader ← get
  let behindDash := (if reader.flags.spaced then dropSpace (reader.rest.drop 1)
    else reader.rest.drop 1).head?
  match reader.rest with
  | [] => throw .unclosedClass
  | c :: rest =>
    if c ≠ '-' || behindDash == some ']' || behindDash == some '-' then
      match first with
      | .literal c => return .single c
      | .set positive s => return signed positive s
      | .look _ => throw .badClassItem
    else
      set { reader with rest }
      skipSpace
      match first, ← classItem with
      | .literal low, .literal high =>
        if high < low then throw .badRange
        return .ranges [(low.toNat, high.toNat)]
      | _, _ => throw .badClassItem

/-- How two sets in brackets are put together. -/
inductive ClassOperator where
  | intersection
  | difference
  | symmetricDifference

/-- Puts two sets together. -/
def ClassOperator.apply : ClassOperator → CharSet → CharSet → CharSet
  | .intersection, a, b => .inter a b
  | .difference, a, b => .inter a (.compl b)
  | .symmetricDifference, a, b => .inter (.union a b) (.compl (.inter a b))

/-- The set read so far in brackets, with the operator before its last part. -/
structure ClassPart where
  before : Option (CharSet × ClassOperator) := none
  items : CharSet := .none

/-- The set of a part. -/
def ClassPart.whole (part : ClassPart) : CharSet :=
  match part.before with
  | some (left, operator) => operator.apply left part.items
  | none => part.items

/-- The part with one more item. -/
def ClassPart.add (part : ClassPart) (item : CharSet) : ClassPart :=
  { part with items := .union part.items item }

/-- The part behind an operator. -/
def ClassPart.operator (part : ClassPart) (operator : ClassOperator) : ClassPart :=
  { before := some (part.whole, operator) }

/-- The dashes, or else the closing bracket, that stand for themselves at the start of a set. -/
def classStart (part : ClassPart) : Read ClassPart := do
  let reader ← get
  let dashes := reader.rest.takeWhile (· = '-')
  if dashes.isEmpty then
    if reader.rest.head? = some ']' then
      set { reader with rest := reader.rest.drop 1 }
      return part.add (.single ']')
    else return part
  else
    set { reader with rest := reader.rest.drop dashes.length }
    return part.add (.single '-')

mutual

/-- Reads a set behind its opening bracket, up to its closing one. -/
def bracketed : Nat → Read CharSet
  | 0 => throw .tooLong
  | n + 1 => do
    skipSpace
    let positive := !(← accept "^")
    skipSpace
    let part ← classStart {}
    let set ← underFlags (← bracketedItems n part)
    if !positive && !(← get).flags.unicode then throw .notText
    return signed positive set

/-- Reads the items of a set up to its closing bracket. -/
def bracketedItems : Nat → ClassPart → Read CharSet
  | 0, _ => throw .tooLong
  | n + 1, part => do
    skipSpace
    if ← accept "]" then return part.whole
    else if ← accept "&&" then bracketedItems n (part.operator .intersection)
    else if ← accept "--" then bracketedItems n (part.operator .difference)
    else if ← accept "~~" then bracketedItems n (part.operator .symmetricDifference)
    else if (← peek) == some '[' then
      match ← bracketSet with
      | some s => bracketedItems n (part.add s)
      | none =>
        let _ ← next .unclosedClass
        let inner ← bracketed n
        bracketedItems n (part.add inner)
    else
      let item ← classRange
      bracketedItems n (part.add item)

end

/-! ## Repetition -/

/-- Reads a decimal number. White space around it says nothing. -/
def decimal : Read Nat := do
  skipSpace
  skipBlanks
  let reader ← get
  let digits := reader.rest.takeWhile Char.isDigit
  if digits.isEmpty then throw .badRepetition
  let n : Nat := digits.foldl (fun n c => 10 * n + (c.toNat - 48)) 0
  if n ≥ 0x100000000 then throw .badRepetition
  set { reader with rest := reader.rest.drop digits.length }
  skipSpace
  skipBlanks
  return n

/-- The bounds behind an opening brace. -/
def bounds : Read (Nat × Option Nat) := do
  let least ← decimal
  if ← accept "\x7d" then return (least, some least)
  if !(← accept ",") then throw .badRepetition
  skipSpace
  if ← accept "\x7d" then return (least, none)
  let most ← decimal
  if !(← accept "\x7d") then throw .badRepetition
  if most < least then throw .badRepetition
  return (least, some most)

/-- Reads how often an item is to be repeated. -/
def repetition : Read (Option (Nat × Option Nat)) := do
  if ← accept "*" then return some (0, none)
  else if ← accept "+" then return some (1, none)
  else if ← accept "?" then return some (0, some 1)
  else if ← accept "\x7b" then
    let found ← bounds
    skipSpace
    return some found
  else return none

/-- Repeats an item as often as is asked for behind it. -/
def repeated : Nat → Pattern → Read Pattern
  | 0, _ => throw .tooLong
  | n + 1, item => do
    skipSpace
    match ← repetition with
    | none => return item
    | some (least, most) =>
      let lazy ← accept "?"
      let greedy := lazy == (← get).flags.swapGreed
      repeated n (rounds greedy item least most)

/-! ## Groups and sequences -/

/-- The flag with a letter, switched on or off. -/
def Flags.put (flags : Flags) (letter : Char) (enabled : Bool) : Option Flags :=
  match letter with
  | 'i' => some { flags with anyCase := enabled }
  | 'm' => some { flags with multiLine := enabled }
  | 's' => some { flags with dotAll := enabled }
  | 'U' => some { flags with swapGreed := enabled }
  | 'u' => some { flags with unicode := enabled }
  | 'x' => some { flags with spaced := enabled }
  | 'R' => some { flags with anyLineEnd := enabled }
  | _ => none

/-- Reads flags up to a colon or a closing parenthesis. Gives the flags, whether there were any
letters, and whether a colon ended them. -/
def readFlags : Nat → Flags → List Char → Bool → Bool → Read (Flags × Bool × Bool)
  | 0, _, _, _, _ => throw .tooLong
  | n + 1, flags, letters, enabled, dangling => do
    let c ← next .unclosedGroup
    if c = ':' || c = ')' then
      if dangling then throw .badFlag
      return (flags, !letters.isEmpty, c = ':')
    else if c = '-' then
      if !enabled then throw .badFlag
      readFlags n flags letters false true
    else
      if letters.contains c then throw .badFlag
      match flags.put c enabled with
      | some flags => readFlags n flags (c :: letters) enabled false
      | none => throw .badFlag

/-- Whether a character can stand in the name of a group. -/
def inGroupName (first : Bool) (c : Char) : Bool :=
  if first then c = '_' || (Text.isWord c && !Text.isDigit c && c ≠ '_')
  else c = '_' || c = '.' || c = '[' || c = ']' || Text.isWord c

/-- Reads the name of a group behind its opening angle. -/
def groupName : Read Unit := do
  let reader ← get
  let name := reader.rest.takeWhile (· ≠ '>')
  set { reader with rest := reader.rest.drop name.length }
  let _ ← next .badGroupName
  match name with
  | [] => throw .badGroupName
  | c :: cs =>
    if !inGroupName true c || !cs.all (inGroupName false) then throw .badGroupName
    let name := String.ofList name
    if reader.names.contains name then throw .badGroupName
    modify fun reader => { reader with names := name :: reader.names }

/-- The number of a group that is being opened. -/
def newGroup : Read Nat := do
  let number := (← get).groups + 1
  modify fun reader => { reader with groups := number }
  return number

/-- The pattern of a dot. -/
def dot : Read Pattern := do
  let flags := (← get).flags
  if !flags.unicode then throw .notText
  let lineEnds := if flags.anyLineEnd then [(0x0A, 0x0A), (0x0D, 0x0D)] else [(0x0A, 0x0A)]
  return .char (if flags.dotAll then .compl .none else .compl (.ranges lineEnds))

/-- The pattern of `^`. -/
def caret : Read Pattern := do
  let flags := (← get).flags
  return .look (if !flags.multiLine then .textStart
    else if flags.anyLineEnd then .lineStartAny else .lineStart)

/-- The pattern of `$`. -/
def dollar : Read Pattern := do
  let flags := (← get).flags
  return .look (if !flags.multiLine then .textEnd
    else if flags.anyLineEnd then .lineEndAny else .lineEnd)

/-- The pattern of a character that stands for itself. -/
def literal (c : Char) : Read Pattern := do
  if !(← get).flags.unicode && 0x80 ≤ c.toNat then throw .notText
  return .char (← underFlags (.single c))

/-- The pattern of an escape. -/
def ofEscape : Escape → Read Pattern
  | .literal c => literal c
  | .set positive s => charPattern positive s
  | .look condition => return .look condition

mutual

/-- Reads alternatives up to a closing parenthesis or the end. -/
def alternatives : Nat → Read Pattern
  | 0 => throw .tooLong
  | n + 1 => do
    let first ← items n []
    if ← accept "|" then return .alt first (← alternatives n) else return first

/-- Reads items up to the end of an alternative, after those already read. -/
def items : Nat → List Pattern → Read Pattern
  | 0, _ => throw .tooLong
  | n + 1, done => do
    skipSpace
    match ← peek with
    | none | some '|' | some ')' => return sequence done.reverse
    | some _ =>
      match ← item n with
      | some pattern => items n ((← repeated n pattern) :: done)
      | none =>
        -- Flags took effect; there is nothing here that could be repeated.
        skipSpace
        match ← peek with
        | some '*' | some '+' | some '?' | some '\x7b' => throw .nothingToRepeat
        | _ => items n done

/-- Reads one item. There is none where flags are set. -/
def item : Nat → Read (Option Pattern)
  | 0 => throw .tooLong
  | n + 1 => do
    let c ← next .tooLong
    match c with
    | '(' => parenthesis n
    | '[' => return some (.char (← bracketed n))
    | '.' => return some (← dot)
    | '^' => return some (← caret)
    | '$' => return some (← dollar)
    | '\\' => return some (← ofEscape (← escape))
    | '*' | '+' | '?' | '\x7b' => throw .nothingToRepeat
    | _ => return some (← literal c)

/-- Reads what stands behind an opening parenthesis. -/
def parenthesis : Nat → Read (Option Pattern)
  | 0 => throw .tooLong
  | n + 1 => do
    skipSpace
    for look in ["?=", "?!", "?<=", "?<!"] do
      if ← accept look then throw .lookAround
    if (← accept "?P<") || (← accept "?<") then
      let number ← newGroup
      groupName
      return some (.group number (← body n (← get).flags))
    else if ← accept "?" then
      let (flags, any, colon) ← readFlags n (← get).flags [] true false
      if colon then return some (← body n flags)
      else if !any then throw .nothingToRepeat
      else
        modify fun reader => { reader with flags }
        return none
    else
      let number ← newGroup
      return some (.group number (← body n (← get).flags))

/-- Reads the inside of a group under flags of its own, and its closing parenthesis. -/
def body : Nat → Flags → Read Pattern
  | 0, _ => throw .tooLong
  | n + 1, flags => do
    let outer := (← get).flags
    modify fun reader => { reader with flags }
    let inside ← alternatives n
    if !(← accept ")") then throw .unclosedGroup
    modify fun reader => { reader with flags := outer }
    return inside

end

/-- The pattern that a text spells. -/
def parse (text : String) : Except Fault Pattern := do
  let chars := text.toList
  let (pattern, reader) ← (alternatives (4 * chars.length + 8)).run { rest := chars }
  match reader.rest with
  | [] => .ok pattern
  | _ => .error .unopenedGroup

end Marginalia.Pattern
