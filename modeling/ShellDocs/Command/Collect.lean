import ShellDocs.Config.Basic
import ShellDocs.Extraction
import ShellDocs.Provider
import ShellDocs.Reference
import ShellDocs.Text.Word

/-!
# Where documentation comes from

The words of a command line are the documentation itself, with three exceptions: a single dash
stands for the standard input, a single word that is the name of a known function stands for that
function, and without words the documentation is that of a function.
-/

namespace ShellDocs.Command

open Toml (Value)

/-- Whether a character may stand in the name of a function that is looked up without being asked
for. -/
def isNameChar (c : Char) : Bool :=
  Text.isWordChar c || c == ':' || c == '.' || c == '@' || c == '+' || c == '-'

/-- Whether a word is looked up without being asked for: it starts with an ASCII letter or an
underscore. -/
def isFunctionName : Text → Bool
  | [] => false
  | c :: rest => (c.isAlpha || c == '_') && rest.all isNameChar

/-- The source of definitions: a catalog of the given text, or else a shell that first reads the
configured library files and `sources`. -/
def provider (d : Disk) (definitions : Option Text) (sources : List Text) (config : Config) :
    Traced Provider :=
  match definitions with
  | some text => do
      let catalog ← Catalog.read text
      pure (.catalog catalog)
  | none => do
      let patterns ← Traced.ofExcept (Config.members config.libraryFiles)
      let files ← Library.expand d (patterns.map Value.display ++ sources)
      pure (.shell ⟨files, ⟨config.shell, d.user.locale⟩, config.shellTimeout⟩)

/-- The name of the command whose quoted argument is documentation. -/
def rendererName (config : Config) : Except Failure Text :=
  match config.rendererName with
  | .text t => .ok t
  | _ => .error (.escape .wrongType)

/-- What is asked for on a command line. -/
structure Request where
  words : List Text
  function : Option Text

/-- The word that may be the name of a function although none is asked for. -/
def Request.impliedName? (r : Request) : Option Text :=
  match r.function, r.words with
  | none, [word] => if isFunctionName word then some word else none
  | _, _ => none

/-- Where definitions, files and input come from. -/
structure Sources where
  disk : Disk
  shell : Shell
  provider : Provider
  /-- The command whose quoted argument is documentation. -/
  renderer : Text
  input : Text

namespace Sources

/-- The definition of a function that is not asked for by name, if there is one. A lookup that
fails for want of a shell counts as none. -/
def findFunction (s : Sources) (name : Text) : Traced (Option Definition) :=
  let found : Traced (Option Definition) := do
    let d ← s.provider.lookup s.shell name
    pure (some d)
  found.orElse fun failure =>
    match failure with
    | .unknownFunction _ => pure none
    | .shellMissing _ => do
        Traced.note (.takenAsText name failure)
        pure none
    | .lookupTimeout _ => do
        Traced.note (.takenAsText name failure)
        pure none
    | _ => .fail failure

/-- The documentation in a definition, or in the file that it refers to. -/
def documentation (s : Sources) (name : Text) (d : Definition) : Traced Docstring := do
  let docs ← d.documentation s.renderer
  if docs.found then Reference.resolveFrom s.disk none docs
  else .fail (.undocumented name)

/-- The documentation of a function that is asked for, or of the first one in a catalog. -/
def functionDocumentation (s : Sources) (function : Option Text) :
    Traced (Docstring × Option Text) :=
  match function.or s.provider.firstName? with
  | none => .fail (.usage .nothingToShow)
  | some name => do
      let d ← s.provider.lookup s.shell name
      let docs ← s.documentation name d
      pure (docs, some name)

/-- The documentation without a lookup of words: the words themselves, if there are any, or else
that of a function. -/
def explicitDocumentation (s : Sources) (r : Request) : Traced (Docstring × Option Text) :=
  if r.words.isEmpty then s.functionDocumentation r.function
  else pure (Docstring.ofText (Text.joinNewlines r.words), r.function)

/-- The documentation that is asked for, and the name of its function. -/
def collect (s : Sources) (r : Request) : Traced (Docstring × Option Text) :=
  if r.function = none ∧ r.words = [['-']] then pure (Docstring.ofFile s.input, none)
  else
    match r.impliedName? with
    | none => s.explicitDocumentation r
    | some name => do
        match ← s.findFunction name with
        | none => s.explicitDocumentation r
        | some d => do
            let docs ← s.documentation name d
            pure (docs, some name)

end Sources

end ShellDocs.Command
