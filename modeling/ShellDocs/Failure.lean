import ShellDocs.Block.Scan
import ShellDocs.Files.Tree
import ShellDocs.Toml.Document

/-!
# Failures and notices

Everything that can go wrong is a cause, with the wording in one place. A `Failure` that the
program reports has a message and an exit status. A few causes are not foreseen by any part of
the program that could report them; these `Escape` as they are.
-/

namespace ShellDocs

open Toml (Value)

/-- Why a setting or a configuration file is refused. -/
inductive ConfigFault where
  | indent (v : Value)
  | pager (v : Value)
  | color (v : Value)
  | headingWords
  | libraryFiles
  | rendererName
  | shellTimeout (v : Value)
  /-- No file stands at the path that was asked for. -/
  | missing (path : Text)
  /-- A file that was to be created is there already. -/
  | present (path : Text)
  | unreadable (fault : FileFault)
  /-- The file is not TOML. -/
  | malformed (document : Text) (fault : Toml.Fault)
  | unwritable (fault : FileFault)

/-- Why a documentation file cannot be read. -/
inductive ReadFault where
  | file (fault : FileFault)
  | encoding (fault : Utf8.Fault)
  deriving DecidableEq, Repr

/-- Why a command line makes no sense. -/
inductive UsageFault where
  /-- There is no text to show and no function to take it from. -/
  | nothingToShow
  /-- A title is asked for and there is no function to name. -/
  | noTitle
  | unknownOption (name : Text)
  | missingArgument (name : Text)
  | unexpectedValue (name : Text)
  | badDefinitions (fault : FileFault)
  deriving DecidableEq, Repr

/-- A cause that no part of the program reports. -/
inductive Escape where
  /-- A value without members stands where a list is needed, or a value that is no text where a
  text is. -/
  | wrongType
  /-- Bytes that must be text are none, or a text that is to be written has no bytes. -/
  | badEncoding
  /-- A path names a user that does not exist. -/
  | unknownUser
  /-- The system does not do what is asked: a temporary file cannot be removed, or a shell cannot
  be run. -/
  | blocked
  /-- The system cannot even tell where a path leads, or whether something stands there. -/
  | unanswered
  /-- A path that no file can have, or an argument that no program can get. -/
  | badPath
  /-- A configuration file cannot be edited in place. -/
  | uneditable
  /-- A number in a configuration file, or to be written to one, has too many digits. -/
  | longNumber
  /-- A configuration file is nested too deep. -/
  | deepNesting
  /-- A number is too large for the machine to count to. -/
  | overflow
  /-- A text is too large for any memory. -/
  | exhausted
  deriving DecidableEq, Repr

/-- The first number that the machine cannot count to, `2 ^ 63`. -/
def countLimit : Int := 0x8000000000000000

/-- A number of characters that no memory holds, `2 ^ 40`. -/
def memoryLimit : Int := 0x10000000000

/-- Why lines cannot be indented by so many blanks. -/
def Escape.ofIndent? (n : Int) : Option Escape :=
  if countLimit ≤ n then some .overflow else if memoryLimit ≤ n then some .exhausted else none

/-- Why the program fails. -/
inductive Failure where
  /-- The function has no documentation. -/
  | undocumented (name : Text)
  | unknownFunction (name : Text)
  | shellMissing (shell : Value)
  | lookupTimeout (seconds : Value)
  | malformedHereDoc (fault : Block.Malformed)
  | unreadableDocs (path : Text) (fault : ReadFault)
  | config (fault : ConfigFault)
  | usage (fault : UsageFault)
  | escape (cause : Escape)

/-- The color modes of a configuration. -/
def colorModes : List Text := ["auto", "always", "never"]

/-- The wording of a configuration fault. -/
def ConfigFault.message : ConfigFault → Text
  | .indent v => ("indent must be a non-negative integer, got " : Text) ++ v.literal
  | .pager v => ("pager must be true or false, got " : Text) ++ v.literal
  | .color v =>
      ("color must be one of " : Text) ++ Text.join ", " colorModes ++ ", got " ++ v.literal
  | .headingWords => "heading_words must be a list of non-empty strings"
  | .libraryFiles => "library_files must be a list of strings"
  | .rendererName => "renderer_name must be a non-empty string"
  | .shellTimeout v => ("shell_timeout must be a positive integer, got " : Text) ++ v.literal
  | .missing path => ("Config file not found: " : Text) ++ path
  | .present path => ("Config file already exists: " : Text) ++ path
  | .unreadable fault => ("Failed to load config: " : Text) ++ fault.message
  | .malformed document fault => ("Failed to load config: " : Text) ++ fault.message document
  | .unwritable fault => ("Failed to save config: " : Text) ++ fault.message

/-- The wording of a fault in reading documentation. -/
def ReadFault.message : ReadFault → Text
  | .file fault => fault.message
  | .encoding fault => fault.message

/-- The wording of a usage fault. -/
def UsageFault.message : UsageFault → Text
  | .nothingToShow => "No function name to use for doc-strings"
  | .noTitle => "No function name to use as title"
  | .unknownOption name => ("No such option " : Text) ++ Text.quoted name ++ "."
  | .missingArgument name => ("Option " : Text) ++ Text.quoted name ++ " requires an argument."
  | .unexpectedValue name => ("Option " : Text) ++ Text.quoted name ++ " does not take a value."
  | .badDefinitions fault =>
      ("Invalid value for '--defn': '" : Text) ++ fault.path ++ "': " ++ fault.errno.text

/-- The wording of a failure; one that escapes has none. -/
def Failure.message : Failure → Text
  | .undocumented name => ("No docs available for function '" : Text) ++ name ++ "'"
  | .unknownFunction name => ("unknown function: '" : Text) ++ name ++ "'"
  | .shellMissing shell => ("Shell not found: " : Text) ++ shell.display
  | .lookupTimeout seconds =>
      ("Function lookup timed out after " : Text) ++ seconds.display ++ "s"
  | .malformedHereDoc fault =>
      ("Malformed here-doc on line " : Text) ++ Text.ofNat fault.number ++
        ": no terminator in " ++ Text.quoted (Text.strip fault.line)
  | .unreadableDocs path fault =>
      ("Cannot read docs file " : Text) ++ path ++ ": " ++ fault.message
  | .config fault => fault.message
  | .usage fault => fault.message
  | .escape _ => []

/-- The exit status of the program after a failure. -/
def Failure.exitStatus : Failure → Nat
  | .undocumented _ => 1
  | .unknownFunction _ => 3
  | .shellMissing _ => 3
  | .lookupTimeout _ => 3
  | .malformedHereDoc _ => 4
  | .unreadableDocs _ _ => 1
  | .config _ => 5
  | .usage _ => 2
  | .escape _ => 1

end ShellDocs
