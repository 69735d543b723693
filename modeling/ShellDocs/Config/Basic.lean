import ShellDocs.Render.Page
import ShellDocs.Toml.Printer
import ShellDocs.Traced

/-!
# Configurations

A configuration has eight settings. Its values may be of any kind, because a configuration file
may give any; `check` tells the first setting that is refused. A table becomes a configuration by
`ofTable`, which ignores the keys it does not know.
-/

namespace ShellDocs

open Toml (Value Table)

/-- The settings of the program. -/
structure Config where
  /-- How many blanks stand before every line. -/
  indent : Value := .int 2
  /-- Whether a terminal shows the output page by page. -/
  pager : Value := .bool true
  /-- Whether output is styled: one of `colorModes`. -/
  color : Value := .text "auto"
  /-- The words that start a heading. -/
  headingWords : Value := .list (Render.defaultHeadingWords.map .text)
  /-- Patterns of the files that a shell reads before a lookup. -/
  libraryFiles : Value := .list []
  /-- The command whose quoted argument is documentation. -/
  rendererName : Value := .text "docsh"
  shell : Value := .text "bash"
  /-- How many seconds a lookup may take. -/
  shellTimeout : Value := .int 10

namespace Config

/-- The settings under their keys, in the order in which they are written. -/
def entries (c : Config) : Table :=
  [("indent", c.indent), ("pager", c.pager), ("color", c.color),
    ("heading_words", c.headingWords), ("library_files", c.libraryFiles),
    ("renderer_name", c.rendererName), ("shell", c.shell), ("shell_timeout", c.shellTimeout)]

/-- The keys of the settings. -/
def keys : List Text := (entries {}).map (·.1)

/-- What a table gives for a key, or else the usual value. -/
def setting (t : Table) (key : Text) (usual : Value) : Value := (t.lookup key).getD usual

/-- The configuration with the settings of a table; those that it does not give stay. -/
def withEntries (c : Config) (t : Table) : Config where
  indent := setting t "indent" c.indent
  pager := setting t "pager" c.pager
  color := setting t "color" c.color
  headingWords := setting t "heading_words" c.headingWords
  libraryFiles := setting t "library_files" c.libraryFiles
  rendererName := setting t "renderer_name" c.rendererName
  shell := setting t "shell" c.shell
  shellTimeout := setting t "shell_timeout" c.shellTimeout

/-- Whether a value is an integer that is not negative. -/
def isIndent : Value → Bool
  | .int n => 0 ≤ n
  | _ => false

/-- Whether a value is true or false. -/
def isSwitch : Value → Bool
  | .bool _ => true
  | _ => false

/-- Whether a value is one of the color modes. -/
def isColorMode : Value → Bool
  | .text t => colorModes.contains t
  | _ => false

/-- Whether a value is a text. -/
def isText : Value → Bool
  | .text _ => true
  | _ => false

/-- Whether a value is a text that is not empty. -/
def isWord : Value → Bool
  | .text t => !t.isEmpty
  | _ => false

/-- Whether a value is a positive integer; true counts as one. -/
def isTimeout : Value → Bool
  | .int n => 0 < n
  | .bool b => b
  | _ => false

/-- The members of a value that must have some. -/
def members (v : Value) : Except Failure (List Value) :=
  match v.members? with
  | some vs => .ok vs
  | none => .error (.escape .wrongType)

/-- The value that the wording of a fault shows. -/
def shown? : ConfigFault → Option Value
  | .indent v => some v
  | .pager v => some v
  | .color v => some v
  | .shellTimeout v => some v
  | _ => none

/-- Nothing if the condition holds, and the fault otherwise. An integer of too many digits cannot
even be shown. -/
def require (holds : Bool) (fault : ConfigFault) : Except Failure Unit :=
  if holds then .ok ()
  else if (shown? fault).any (·.holdsLong) then .error (.escape .longNumber)
  else .error (.config fault)

/-- The first setting that is refused. The shell may be anything. -/
def check (c : Config) : Except Failure Unit := do
  require (isIndent c.indent) (.indent c.indent)
  require (isSwitch c.pager) (.pager c.pager)
  require (isColorMode c.color) (.color c.color)
  let words ← members c.headingWords
  require (words.all isWord) .headingWords
  let files ← members c.libraryFiles
  require (files.all isText) .libraryFiles
  require (isWord c.rendererName) .rendererName
  require (isTimeout c.shellTimeout) (.shellTimeout c.shellTimeout)

/-- The configuration of a table: the settings that it gives, and the usual ones for the others.
A value with members may stand for a list of them. -/
def ofEntries (t : Table) : Except Failure Config := do
  let c := ({} : Config).withEntries t
  let words ← members c.headingWords
  let files ← members c.libraryFiles
  let c := { c with headingWords := .list words, libraryFiles := .list files }
  check c
  pure c

/-- The keys of a table that are no settings, in order. -/
def unknownKeys (t : Table) : List Text :=
  Text.sort ((t.map (·.1)).filter (!keys.contains ·))

/-- The configuration of a table, with a warning about keys that are no settings. -/
def ofTable (t : Table) : Traced Config := do
  if !(unknownKeys t).isEmpty then Traced.note (.unknownKeys (unknownKeys t))
  Traced.ofExcept (ofEntries t)

/-- Whether output is styled: as the option says, not when the environment forbids colors, as the
configuration says, or else, with `none`, as it turns out. A value with members is no mode that
could be looked up. -/
def styling (flag : Option Bool) (forbidden : Bool) (mode : Value) :
    Except Failure (Option Bool) :=
  match flag with
  | some b => .ok (some b)
  | none =>
      if forbidden then .ok (some false)
      else
        match mode with
        | .text t =>
            .ok (if t = ("always" : Text) then some true
              else if t = ("never" : Text) then some false else none)
        | .list _ => .error (.escape .wrongType)
        | .table _ => .error (.escape .wrongType)
        | _ => .ok none

end Config

end ShellDocs
