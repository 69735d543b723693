import ShellDocs.Command.Arguments
import ShellDocs.Command.Collect
import ShellDocs.Command.Help
import ShellDocs.Config.Store
import ShellDocs.Text.Wrap

/-!
# Runs of the command

A run is a traced computation: it prints, gives a text to a pager and changes files as its last
step. The `Outcome` of a run is what its trace and its result come to: what is printed, the exit
status, the commands that were run, and the files as they are left.
-/

namespace ShellDocs.Command

/-- What a process finds around it. -/
structure Surroundings where
  disk : Disk
  environment : Environment
  /-- The standard input. -/
  input : Text
  /-- Whether the standard output is a terminal. -/
  terminal : Bool
  shell : Shell
  /-- What reads and edits TOML. -/
  toml : Toml.Library := .builtin

/-- What comes of a run. -/
structure Outcome where
  status : Nat
  output : Text
  errors : Text
  paged : List Paging
  calls : List ShellCall
  disk : Disk
  /-- The cause that no part of the program reports. -/
  escape : Option Escape

/-- The definitions that a command line names. -/
inductive Definitions where
  /-- They come on the standard input. -/
  | input
  | file (content : Bytes)

/-- The definitions that a command line names; a file is opened before anything else is done. -/
def openDefinitions (d : Disk) : Option Text → Except Failure (Option Definitions)
  | none => .ok none
  | some name =>
      if name = ['-'] then .ok (some .input)
      else if !d.user.canName name then .error (.escape .badPath)
      else
        match d.readBytes name with
        | .ok content => .ok (some (.file content))
        | .error fault => .error (.usage (.badDefinitions fault))

/-- The text of the definitions, and what is left of the standard input. -/
def readDefinitions (input : Text) :
    Option Definitions → Except Failure (Option Text × Text)
  | none => .ok (none, input)
  | some .input => .ok (some input, [])
  | some (.file content) =>
      match Utf8.decode content with
      | .ok text => .ok (some (Text.uniformNewlines text), input)
      | .error _ => .error (.escape .badEncoding)

/-- What is printed when all has gone well. -/
structure Printing where
  text : Text
  styling : Option Bool
  /-- Whether a terminal shows the text page by page. -/
  pages : Bool

/-- The indentation that a configuration asks for, within what a machine can do. -/
def indentation (config : Config) : Except Failure Int :=
  match config.indent with
  | .int n =>
      match Escape.ofIndent? n with
      | none => .ok n
      | some cause => .error (.escape cause)
  | _ => .error (.escape .wrongType)

/-- The layout that a command line and a configuration ask for. -/
def layout (a : Arguments) (config : Config) (name : Option Text) :
    Except Failure Render.Options := do
  let words ← Config.members config.headingWords
  let indent ← indentation config
  pure
    { title := if a.title then name else none
      description := a.description
      describeFromBody := a.describe && a.description.isNone
      indent := indent
      headingWords := words.filterMap Toml.Value.text? }

/-- The documentation that a command line asks for. -/
def compose (s : Surroundings) (a : Arguments) (definitions : Option Definitions) :
    Traced Printing := do
  let config ← Config.load s.disk s.environment a.config s.toml
  let (text, input) ← Traced.ofExcept (readDefinitions s.input definitions)
  let provider ← provider s.disk text a.sources config
  let renderer ← Traced.ofExcept (rendererName config)
  let sources : Sources := ⟨s.disk, s.shell, provider, renderer, input⟩
  let (docs, name) ← sources.collect ⟨a.words, a.function⟩
  if a.title && (Render.nonEmpty? name).isNone then Traced.fail (.usage .noTitle)
  else do
    let options ← Traced.ofExcept (layout a config name)
    let styling ← Traced.ofExcept
      (Config.styling a.color s.environment.forbidsColor config.color)
    pure
      { text := Render.page options docs.lines
        styling := styling
        pages := a.pager.getD (match config.pager with
          | .bool b => b
          | _ => false) }

/-- The file that a new configuration is written to, as it is written on the command line or
else as it is implied. -/
def newConfigTarget (s : Surroundings) (a : Arguments) : Except Failure Text :=
  match a.config.filter (!·.isEmpty) with
  | some t => .ok t
  | none => (Config.impliedPath s.disk s.environment).map Path.toText

/-- Writes a new configuration file, and gives the path of the file. A file that is there already
is left alone. -/
def writeConfig (s : Surroundings) (a : Arguments) : Traced Path := do
  let target ← Traced.ofExcept (newConfigTarget s a)
  if s.disk.holds (Path.expandHomeText s.disk.user target) then
    Traced.fail (.config (.present target))
  else
    let (disk, saved) := Config.save s.disk s.environment (some target) {} s.toml
    saved.storing disk

/-- The remarks of a trace as they are logged: warnings always, the others on demand. -/
def log (verbose : Bool) (notices : List Notice) : Text :=
  (notices.filter fun n => verbose || n.isWarning).flatMap fun n => n.message ++ ['\n']

/-- What is shown of a failure on a terminal of so many cells. -/
def report (columns : Nat) : Failure → Text
  | .usage (.missingArgument name) =>
      ("Error: " : Text) ++ (UsageFault.missingArgument name).message ++ "\n"
  | .usage (.unexpectedValue name) =>
      ("Error: " : Text) ++ (UsageFault.unexpectedValue name).message ++ "\n"
  | .usage fault => usageHint ++ "Error: " ++ fault.message ++ "\n"
  | .escape _ => []
  | .undocumented name =>
      Text.wrap columns (("Warning: " : Text) ++ (Failure.undocumented name).message)
  | failure => Text.wrap columns (("Error: " : Text) ++ failure.message)

/-- The cause of a failure that no part of the program reports. -/
def escape? : Failure → Option Escape
  | .escape cause => some cause
  | _ => none

/-- The outcome of a computation, by its trace and its result. -/
def outcome (s : Surroundings) (verbose : Bool) (x : Traced Unit) : Outcome :=
  let logged := log verbose x.notices
  let shown := match x.result with
    | .ok _ => []
    | .error failure => report s.environment.columns failure
  { status := match x.result with
      | .ok _ => 0
      | .error failure => failure.exitStatus
    output := x.output
    errors := logged ++ shown
    paged := x.pages
    calls := x.calls
    disk := x.diskAfter s.disk
    escape := match x.result with
      | .ok _ => none
      | .error failure => escape? failure }

/-- Prints a line, without styles unless they are asked for. -/
def echo (styling : Option Bool) (text : Text) : Traced Unit :=
  Traced.print ((if styling = some true then text else Render.stripStyles text) ++ ['\n'])

/-- Shows a text on the standard output, or hands it to a pager instead. -/
def present (terminal : Bool) (p : Printing) : Traced Unit :=
  if p.pages && terminal then Traced.page ⟨p.text ++ ['\n'], p.styling⟩
  else echo p.styling p.text

/-- What a command line that makes sense does. -/
def perform (s : Surroundings) (a : Arguments) : Traced Unit :=
  match a.report with
  | some .help => Traced.print help
  | some .version => Traced.print version
  | none => do
      let definitions ← Traced.ofExcept (openDefinitions s.disk a.definitions)
      if a.initConfig then do
        let p ← writeConfig s a
        echo none (("Wrote default config to " : Text) ++ p.toText)
      else do
        let p ← compose s a definitions
        present s.terminal p

/-- The outcome of a command line. Remarks are logged on demand only once it has been read. -/
def run (s : Surroundings) (line : List Text) : Outcome :=
  match Arguments.parse line with
  | .error fault => outcome s false (Traced.fail (.usage fault))
  | .ok a => outcome s a.verbose (perform s a)

end ShellDocs.Command
