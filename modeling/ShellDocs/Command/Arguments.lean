import ShellDocs.Failure

/-!
# Command lines

An argument that starts with a dash is an option, everything else is a word. Options of one letter
may stand together after one dash. An option that takes a value takes the rest of its argument,
or the next argument whatever that is. After `--` there are only words.
-/

namespace ShellDocs.Command

/-- A text to show in place of documentation. -/
inductive Report where
  | help
  | version
  deriving DecidableEq, Repr

/-- What a command line says. -/
structure Arguments where
  /-- The words, in order. -/
  words : List Text := []
  /-- Whether the first line of the documentation is its description. -/
  describe : Bool := false
  description : Option Text := none
  /-- The function that is asked for. -/
  function : Option Text := none
  /-- Whether the function's name stands above the documentation. -/
  title : Bool := false
  /-- The file with definitions. -/
  definitions : Option Text := none
  /-- Files that the shell reads before a lookup. -/
  sources : List Text := []
  config : Option Text := none
  /-- Whether to write a configuration file and do nothing else. -/
  initConfig : Bool := false
  color : Option Bool := none
  pager : Option Bool := none
  verbose : Bool := false
  /-- The first report that is asked for. -/
  report : Option Report := none
  deriving DecidableEq, Repr

/-- An option that stands alone. -/
inductive Flag where
  | describe
  | title
  | initConfig
  | color (on : Bool)
  | pager (on : Bool)
  | verbose
  | report (which : Report)
  deriving DecidableEq, Repr

/-- An option that takes a value. -/
inductive Setting where
  | description
  | function
  | definitions
  | source
  | config
  deriving DecidableEq, Repr

/-- An option of either kind. -/
inductive Choice where
  | flag (f : Flag)
  | setting (s : Setting)
  deriving DecidableEq, Repr

/-- The options with a long name. -/
def longOptions : List (Text × Choice) :=
  [("--defn", .setting .definitions), ("--source", .setting .source),
    ("--config", .setting .config), ("--init-config", .flag .initConfig),
    ("--color", .flag (.color true)), ("--no-color", .flag (.color false)),
    ("--pager", .flag (.pager true)), ("--no-pager", .flag (.pager false)),
    ("--verbose", .flag .verbose), ("--version", .flag (.report .version)),
    ("--help", .flag (.report .help))]

/-- The options of one letter. -/
def shortOptions : List (Char × Choice) :=
  [('D', .flag .describe), ('d', .setting .description), ('f', .setting .function),
    ('T', .flag .title), ('s', .setting .source), ('v', .flag .verbose),
    ('h', .flag (.report .help))]

namespace Arguments

/-- The arguments with a flag. -/
def raise (a : Arguments) : Flag → Arguments
  | .describe => { a with describe := true }
  | .title => { a with title := true }
  | .initConfig => { a with initConfig := true }
  | .color on => { a with color := some on }
  | .pager on => { a with pager := some on }
  | .verbose => { a with verbose := true }
  | .report which => { a with report := a.report.or (some which) }

/-- The arguments with the value of a setting. The last value counts, but sources add up. -/
def give (a : Arguments) (value : Text) : Setting → Arguments
  | .description => { a with description := some value }
  | .function => { a with function := some value }
  | .definitions => { a with definitions := some value }
  | .source => { a with sources := a.sources ++ [value] }
  | .config => { a with config := some value }

/-- A setting that waits for its value, with the name it was given under. -/
structure Pending where
  setting : Setting
  name : Text

/-- The arguments with the options of one letter that stand together. -/
def readLetters (a : Arguments) : Text → Except UsageFault (Arguments × Option Pending)
  | [] => .ok (a, none)
  | c :: rest =>
      match shortOptions.lookup c with
      | none => .error (.unknownOption ['-', c])
      | some (.flag f) => readLetters (a.raise f) rest
      | some (.setting s) =>
          if rest.isEmpty then .ok (a, some ⟨s, ['-', c]⟩) else .ok (a.give rest s, none)

/-- The arguments with an option with a long name; an equals sign ends the name and starts the
value. -/
def readLong (a : Arguments) (argument : Text) :
    Except UsageFault (Arguments × Option Pending) :=
  let name := argument.takeWhile (· != '=')
  let value? := (argument.dropWhile (· != '=')).tail?
  match longOptions.lookup name, value? with
  | none, _ => .error (.unknownOption name)
  | some (.flag f), none => .ok (a.raise f, none)
  | some (.flag _), some _ => .error (.unexpectedValue name)
  | some (.setting s), some value => .ok (a.give value s, none)
  | some (.setting s), none => .ok (a, some ⟨s, name⟩)

/-- The arguments with one argument of the command line. -/
def readOne (a : Arguments) (argument : Text) : Except UsageFault (Arguments × Option Pending) :=
  match argument with
  | '-' :: '-' :: _ => readLong a argument
  | '-' :: c :: rest => readLetters a (c :: rest)
  | _ => .ok ({ a with words := a.words ++ [argument] }, none)

/-- The arguments with those of a command line. -/
def readAll (a : Arguments) : List Text → Except UsageFault Arguments
  | [] => .ok a
  | argument :: rest =>
      if argument = ['-', '-'] then .ok { a with words := a.words ++ rest }
      else
        match readOne a argument with
        | .error fault => .error fault
        | .ok (a, none) => readAll a rest
        | .ok (a, some pending) =>
            match rest with
            | [] => .error (.missingArgument pending.name)
            | value :: rest => readAll (a.give value pending.setting) rest

/-- What a command line says. -/
def parse (line : List Text) : Except UsageFault Arguments := readAll {} line

end Arguments

end ShellDocs.Command
