/-
What a command line asks for.

A command line has two levels: options that hold for every command, the name
of a command, and then its own options and operands. The options of the first
level may stand on the second one too, where they win. Words are read from
left to right, and the first that does not fit decides the outcome.

The value of an option is attached to it or is the next word; a word with a
leading hyphen is never taken for a value that way, except for the hyphen
alone. An option that cannot be repeated stands at most once on a level.
-/
import Marginalia.Codec.Settings
import Marginalia.Output

set_option autoImplicit false

namespace Marginalia.Command

/-! ## Options -/

/-- The options with a value. -/
inductive Flag where
  | settings
  | logLevel
  | format
  | failOn
  | includes
  | excludes
  | linkRoot
  | linkFormat
deriving DecidableEq, Repr

/-- How a format is named on the command line. -/
def formatOfText? : String → Option OutputFormat
  | "text" => some .text
  | "json" => some .json
  | "json-pretty" => some .jsonPretty
  | _ => none

namespace Flag

/-- The long name of an option. -/
def name : Flag → String
  | .settings => "config"
  | .logLevel => "log-level"
  | .format => "format"
  | .failOn => "fail-on"
  | .includes => "include"
  | .excludes => "exclude"
  | .linkRoot => "link-root"
  | .linkFormat => "link-format"

/-- The letter of an option that has one. -/
def letter? : Flag → Option Char
  | .format => some 'f'
  | _ => none

/-- Whether an option accepts a value. -/
def accepts : Flag → String → Bool
  | .settings, value => !value.isEmpty
  | .logLevel, value => ["trace", "debug", "info", "warn", "error"].contains value
  | .format, value => (formatOfText? value).isSome
  | .failOn, value => (FailPolicy.ofText? value).isSome
  | _, _ => true

/-- Whether an option may be given again. -/
def repeats : Flag → Bool
  | .includes | .excludes => true
  | _ => false

/-- The options of every command. -/
def shared : List Flag := [.settings, .logLevel, .format]

end Flag

/-! ## Words -/

/-- A word of a command line, by its form. -/
inductive Word where
  /-- The mark behind which all words are operands. -/
  | mark
  /-- An option by its name, and the value attached to it. -/
  | long (name : String) (value : Option String)
  /-- An option by its letter, and what follows the letter. -/
  | short (letter : Char) (rest : List Char)
  | plain
deriving DecidableEq, Repr

/-- The form of a word. -/
def Word.of (text : String) : Word :=
  match text.toList with
  | ['-', '-'] => .mark
  | '-' :: '-' :: chars =>
    let name := String.ofList (chars.takeWhile (· ≠ '='))
    match chars.dropWhile (· ≠ '=') with
    | [] => .long name none
    | _ :: value => .long name (some (String.ofList value))
  | '-' :: letter :: rest => .short letter rest
  | _ => .plain

/-- The value attached to a letter; an equals sign between them is not part of it. -/
def attached? : List Char → Option String
  | [] => none
  | '=' :: value => some (String.ofList value)
  | value => some (String.ofList value)

/-! ## Levels -/

/-- What an operand stands for. -/
inductive Operand where
  /-- A file or a directory. -/
  | path
  /-- A topic or a nickname. -/
  | node
deriving DecidableEq, Repr

/-- Whether an operand accepts a word. -/
def Operand.accepts : Operand → String → Bool
  | .path, word => !word.isEmpty
  | .node, _ => true

/-- What may stand on a level. -/
structure Level where
  flags : List Flag
  operands : List Operand
  /-- Whether the level ends at its first plain word. -/
  outer : Bool

/-- What stands on a level. -/
structure Given where
  values : List (Flag × String) := []
  operands : List String := []
deriving DecidableEq, Repr

/-- Why there is nothing to carry out. -/
inductive Stop where
  /-- The words do not fit. -/
  | usage
  | help
  | version
deriving DecidableEq, Repr

namespace Given

/-- The values of an option, in order. -/
def all (given : Given) (flag : Flag) : List String :=
  (given.values.filter fun e => e.1 = flag).map (·.2)

/-- The value of an option that is not repeated. -/
def value? (given : Given) (flag : Flag) : Option String :=
  (given.all flag).head?

/-- Adds the value of an option. -/
def put (given : Given) (flag : Flag) (value : String) : Except Stop Given :=
  if flag.accepts value && (flag.repeats || (given.value? flag).isNone) then
    .ok { given with values := given.values ++ [(flag, value)] }
  else .error .usage

/-- Adds an operand, if the level has a place left for it. -/
def operand (given : Given) (level : Level) (word : String) : Except Stop Given :=
  match level.operands[given.operands.length]? with
  | some place =>
    if place.accepts word then .ok { given with operands := given.operands ++ [word] }
    else .error .usage
  | none => .error .usage

end Given

namespace Level

/-- The option with a long name, or what the name asks for instead. -/
def long (level : Level) (name : String) (value : Option String) : Except Stop Flag :=
  match level.flags.find? fun f => f.name = name with
  | some flag => .ok flag
  | none =>
    if value.isNone && name = "help" then .error .help
    else if value.isNone && level.outer && name = "version" then .error .version
    else .error .usage

/-- The option with a letter, or what the letter asks for instead. -/
def short (level : Level) (letter : Char) : Except Stop Flag :=
  match level.flags.find? fun f => f.letter? = some letter with
  | some flag => .ok flag
  | none =>
    if letter = 'h' then .error .help
    else if level.outer && letter = 'V' then .error .version
    else .error .usage

/-- The option a word asks for with the value attached to it, or nothing for other words. -/
def option? (level : Level) (word : String) : Except Stop (Option (Flag × Option String)) :=
  match Word.of word with
  | .long name value => do
    let flag ← level.long name value
    pure (some (flag, value))
  | .short letter rest => do
    let flag ← level.short letter
    pure (some (flag, attached? rest))
  | .mark | .plain => pure none

/-- Reads the words of a level, on top of what was given before. The rest is left where the level
ends at a plain word. -/
def read (level : Level) (given : Given) : List String → Except Stop (Given × List String)
  | [] => .ok (given, [])
  | word :: words => do
    match ← level.option? word with
    | some (flag, some value) =>
      let given ← given.put flag value
      level.read given words
    | some (flag, none) =>
      match words with
      | [] => throw .usage
      | value :: words =>
        if Word.of value = .plain then
          let given ← given.put flag value
          level.read given words
        else throw .usage
    | none =>
      if Word.of word = .mark then
        if level.outer then throw .usage
        let given ← words.foldlM (fun given word => given.operand level word) given
        pure (given, [])
      else if level.outer then pure (given, word :: words)
      else
        let given ← given.operand level word
        level.read given words

end Level

/-! ## Commands -/

/-- The commands by name. -/
inductive Verb where
  | check
  | tree
  | locate
  | extract
deriving DecidableEq, Repr

namespace Verb

/-- The name of a command. -/
def name : Verb → String
  | .check => "check"
  | .tree => "tree"
  | .locate => "show"
  | .extract => "extract"

/-- All commands. -/
def all : List Verb := [.check, .tree, .locate, .extract]

/-- The command with a name. -/
def ofName? (name : String) : Option Verb :=
  all.find? fun verb => verb.name = name

/-- What may stand behind a command. -/
def level : Verb → Level
  | .check => ⟨Flag.shared ++ [.failOn, .includes, .excludes], [.path], false⟩
  | .tree => ⟨Flag.shared, [.path], false⟩
  | .locate => ⟨Flag.shared ++ [.linkRoot, .linkFormat], [.node, .path], false⟩
  | .extract => ⟨Flag.shared, [.path], false⟩

end Verb

/-- What may stand in front of a command. -/
def outerLevel : Level := ⟨Flag.shared, [], true⟩

/-- What is to be done. -/
inductive Task where
  /-- Report all findings about a file or a directory. -/
  | check (path : String) (failOn : Option FailPolicy) (includes excludes : List String)
  /-- Print the outline. -/
  | tree (path : String)
  /-- Print the places of a topic or nickname. -/
  | locate (node path : String) (links : LinkSettings)
  /-- Print the notes of one file. -/
  | extract (path : String)
deriving DecidableEq, Repr

/-- What is to be done, under which settings, and how the result is written. -/
structure Request where
  task : Task
  /-- The settings file, where one is named. -/
  settingsPath : Option String
  format : OutputFormat
deriving DecidableEq, Repr

namespace Request

/-- The task of a command with what stands behind it. A path that is left out is the current
directory. -/
def taskOf (verb : Verb) (given : Given) : Except Stop Task :=
  match verb, given.operands with
  | .check, operands =>
    .ok <| .check (operands.head?.getD ".") ((given.value? .failOn).bind FailPolicy.ofText?)
      (given.all .includes) (given.all .excludes)
  | .tree, operands => .ok (.tree (operands.head?.getD "."))
  | .locate, node :: operands =>
    .ok <| .locate node (operands.head?.getD ".")
      { root := given.value? .linkRoot, format := given.value? .linkFormat }
  | .extract, path :: _ => .ok (.extract path)
  | _, [] => .error .usage

/-- Whether words name something that there is help about. -/
def helps : List String → Bool
  | [] => true
  | [name] => name = "help" || (Verb.ofName? name).isSome
  | ["help", name] => (Verb.ofName? name).isSome
  | _ => false

/-- What the words of a command line ask for. -/
def parse (words : List String) : Except Stop Request := do
  let (outer, rest) ← outerLevel.read {} words
  match rest with
  | [] => throw .usage
  | "help" :: names => throw (if helps names then .help else .usage)
  | name :: words =>
    match Verb.ofName? name with
    | none => throw .usage
    | some verb =>
      let (inner, _) ← verb.level.read {} words
      let task ← taskOf verb inner
      let value? := fun flag => inner.value? flag <|> outer.value? flag
      pure
        { task
          settingsPath := value? .settings
          format := ((value? .format).bind formatOfText?).getD .text }

end Request

end Marginalia.Command
