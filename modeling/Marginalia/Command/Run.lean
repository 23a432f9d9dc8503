/-
Carrying out a command over a workspace.

Nothing here touches a file: a command is a function from what there is to
what is printed and to the exit code. Zero means that all went well, one that
the run fails under its policy or that the topic is not there, and two that
the command could not be carried out.
-/
import Marginalia.Command.Request
import Marginalia.Gather

set_option autoImplicit false

namespace Marginalia.Command

/-- What a command prints and how it exits. -/
structure Outcome where
  exit : UInt32
  stdout : String := ""
  stderr : String := ""
deriving DecidableEq, Repr

/-- The name of the settings file of a directory. -/
def settingsName : String := "annotree.toml"

/-- Prints a result. -/
def Outcome.printed (result : String) : Outcome :=
  { exit := 0, stdout := result ++ "\n" }

/-! ## Settings -/

/-- Settings from the file at a path. -/
def settingsAt (workspace : Workspace) (path : String) : Except Failure Settings := do
  let text ← (workspace path).read.mapError (Failure.unreadable path)
  Settings.parse text

/-- The settings file that goes with a path: that of a directory is in it, and that of a file is
beside it. -/
def settingsBeside (workspace : Workspace) (path : String) : String :=
  SourcePath.join (if (workspace path).isFile then SourcePath.directory path else path) settingsName

/-- The settings of a run: from the file that is named, else from the file that goes with the
path, else the defaults. -/
def settingsFor (workspace : Workspace) (named : Option String) (path : String) :
    Except Failure Settings :=
  match named with
  | some file => settingsAt workspace file
  | none =>
    let file := settingsBeside workspace path
    if (workspace file).isFile then settingsAt workspace file else .ok {}

/-! ## Tasks -/

/-- Settings with patterns of files from the command line: those to take replace what the settings
say, those to leave out come on top. -/
def withPatterns (settings : Settings) (includes excludes : List String) : Settings :=
  { settings with scan :=
    { settings.scan with
      includes := if includes.isEmpty then settings.scan.includes else includes
      excludes := settings.scan.excludes ++ excludes } }

/-- Where links lead, with the command line before the settings. -/
def withLinks (settings : Settings) (links : LinkSettings) : LinkSettings :=
  { root := links.root <|> settings.links.root
    format := links.format <|> settings.links.format }

/-- The survey of everything at a path. -/
def surveyAt (workspace : Workspace) (settings : Settings) (path : String) :
    Except Failure Survey := do
  let gatherer ← Gatherer.of settings
  let sources ← gatherer.gather workspace path
  pure (Survey.run sources false)

/-- The topic that is meant by a nickname or by its own text. -/
def target (outline : Outline) (node : String) : Except Failure Topic :=
  match outline.resolve? node with
  | some topic => .ok topic
  | none => (Topic.parse node).mapError fun e => Failure.invalidPath node e.message

/-- Carries out a task, or says why that cannot be done. -/
def Request.attempt (request : Request) (workspace : Workspace) (colours : Bool) :
    Except Failure Outcome := do
  match request.task with
  | .check path failOn includes excludes =>
    let settings ← settingsFor workspace request.settingsPath path
    let survey ← surveyAt workspace (withPatterns settings includes excludes) path
    let outcome := Outcome.printed (request.format.report colours survey.report)
    let failed := survey.report.fails (failOn.getD settings.failOn)
    pure { outcome with exit := if failed then 1 else 0 }
  | .tree path =>
    let settings ← settingsFor workspace request.settingsPath path
    let survey ← surveyAt workspace settings path
    pure (.printed (request.format.outline colours survey.outline))
  | .locate node path links =>
    let settings ← settingsFor workspace request.settingsPath path
    let survey ← surveyAt workspace settings path
    let topic ← target survey.outline node
    match survey.outline.occurrences? topic with
    | none => pure { exit := 1, stderr := s!"No node at {topic.text}\n" }
    | some all =>
      let format := (withLinks settings links).linkFormat?
      pure (.printed (request.format.occurrences colours topic all format))
  | .extract path =>
    if !(workspace path).isFile then
      throw (.invalidPath path "extract command requires a file path")
    let settings ← settingsFor workspace request.settingsPath path
    let gatherer ← Gatherer.of { settings with
      scan := { settings.scan with skipUnknownFiles := false } }
    let sources ← gatherer.gather workspace path
    let lines := sources.map fun source => request.format.sheet colours source.sheet ++ "\n"
    pure { exit := 0, stdout := String.join lines }

/-- Carries out a request. -/
def Request.run (request : Request) (workspace : Workspace) (colours : Bool) : Outcome :=
  match request.attempt workspace colours with
  | .ok outcome => outcome
  | .error failure => { exit := 2, stderr := s!"Error: {failure.message}\n" }

/-! ## Command lines -/

/-- How the commands are called. -/
def synopsis : String :=
  "\n".intercalate
    ["Usage: annotree [--config FILE] [--log-level LEVEL] [-f FORMAT] COMMAND",
     "",
     "  check [--fail-on error|warning|never] [--include GLOB] [--exclude GLOB] [PATH]",
     "  tree [PATH]",
     "  show [--link-root ROOT] [--link-format TEMPLATE] NODE [PATH]",
     "  extract PATH",
     "  help [COMMAND]",
     ""]

/-- The outcome where there is nothing to carry out. -/
def Stop.outcome : Stop → Outcome
  | .usage => { exit := 2, stderr := synopsis }
  | .help => { exit := 0, stderr := synopsis }
  | .version => { exit := 0, stdout := "annotree 0.1.0\n" }

/-- Reads a command line and carries it out. -/
def run (words : List String) (workspace : Workspace) (colours : Bool) : Outcome :=
  match Request.parse words with
  | .ok request => request.run workspace colours
  | .error stop => stop.outcome

/-! ## What a command needs to know -/

/-- The file or directory that a task is about. -/
def Task.path : Task → String
  | .check path _ _ _ | .tree path | .locate _ path _ | .extract path => path

/-- All paths at which carrying out a request looks. -/
def Request.paths (request : Request) : List String :=
  let path := request.task.path
  [path, SourcePath.join path settingsName, SourcePath.join (SourcePath.directory path) settingsName]
    ++ request.settingsPath.toList

/-- What decides about colours. -/
structure Terminal where
  /-- The wish for colours in any case. -/
  force : Option String
  /-- The wish for no colours. -/
  refuse : Option String
  /-- The wish for colours on a terminal. -/
  allow : Option String
  /-- Whether the output goes to a terminal. -/
  attended : Bool

/-- Whether listings are coloured. A wish that reads `0` is none, except the one for no colours,
which counts whatever it reads. -/
def Terminal.colours (terminal : Terminal) : Bool :=
  if terminal.force.any (· ≠ "0") then true
  else if terminal.refuse.isSome then false
  else terminal.attended && terminal.allow.all (· ≠ "0")

end Marginalia.Command
