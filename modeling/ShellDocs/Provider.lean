import ShellDocs.Catalog
import ShellDocs.Files.Glob

/-!
# Where definitions come from

A definition is found in a catalog, or by asking a shell for it. The shell reads some library
files first and then prints the function; the function's name is an argument of the command and
never part of its text. A run of the shell is not modelled: what it answers to a command is given
by a function.
-/

namespace ShellDocs

open Toml (Value)

/-- What comes of running a shell. -/
inductive ShellReply where
  /-- There is no such shell. -/
  | missing
  /-- The shell did not answer in time. -/
  | timeout
  /-- The system does not run the shell. -/
  | refused
  /-- The shell has printed bytes that are no text. -/
  | garbled
  | finished (status : Int) (output : Text)
  deriving DecidableEq, Repr

/-- The answers of a shell to commands. -/
abbrev Shell := ShellCall → ShellReply

namespace Library

/-- The paths that one pattern stands for, once the home directory is put in. -/
def matching (d : Disk) (pattern : Text) : List Text :=
  (Glob.matching d (Path.expandHomeText d.user pattern)).map fun found => (Path.ofText found).toText

/-- The paths that are those of files, if the system can tell of all of them. -/
def filesAmong (d : Disk) (paths : List Text) : Except Failure (List Text) :=
  match paths.filterM d.isFile? with
  | .ok files => .ok files
  | .error _ => .error (.escape .unanswered)

/-- Whether a pattern has a text where a user or a directory is looked for that none can have for a
name. -/
def seeksUnnamed (d : Disk) (pattern : Text) : Bool :=
  (Path.tildeName? pattern).any (!d.user.canName ·) ||
    Glob.listsUnnamed d.user (Path.expandHomeText d.user pattern)

/-- The files that the patterns stand for, pattern by pattern, with a warning for each pattern
that matches nothing. -/
def expand (d : Disk) : List Text → Traced (List Text)
  | [] => pure []
  | pattern :: rest =>
      if seeksUnnamed d pattern then .fail (.escape .badPath)
      else do
        if (matching d pattern).isEmpty then Traced.note (.libraryMissing pattern)
        let files ← Traced.ofExcept (filesAmong d (matching d pattern))
        let others ← expand d rest
        pure (files ++ others)

end Library

/-- A program to be run: the name of its file, and how the texts of its command become bytes. -/
structure Program where
  name : Value
  locale : Locale := .utf8

/-- A program of which only the name is known. -/
instance : Coe Value Program := ⟨fun name => { name := name }⟩

/-- How a shell is asked for definitions. -/
structure Inquiry where
  /-- The library files, read before a lookup. -/
  files : List Text
  shell : Program
  timeout : Value

namespace Inquiry

/-- The commands that read the library files and print a function. The first argument is the
function's name and the others are the files. -/
def script : Text :=
  ("name=$1; shift; " : Text) ++ "for f in \"$@\"; do . \"$f\" >/dev/null 2>&1; done; " ++
    "declare -pf -- \"$name\""

/-- The command that asks for one function. -/
def call (i : Inquiry) (name : Text) : ShellCall :=
  ⟨i.shell.name, [("-c" : Text), script, ("docsh" : Text), name] ++ i.files, i.timeout⟩

/-- Why the command cannot even be given to the system. -/
def unfit? (i : Inquiry) (name : Text) : Option Escape :=
  match i.shell.name with
  | .text program =>
      if (program :: (i.call name).arguments).all i.shell.locale.canPass then none
      else some .badPath
  | _ => some .wrongType

/-- The definition in a reply. -/
def definition (i : Inquiry) (name : Text) : ShellReply → Except Failure Definition
  | .missing => .error (.shellMissing i.shell.name)
  | .timeout => .error (.lookupTimeout i.timeout)
  | .refused => .error (.escape .blocked)
  | .garbled => .error (.escape .badEncoding)
  | .finished status output =>
      if status ≠ 0 ∨ Text.isVoid output then .error (.unknownFunction name)
      else .ok (Definition.ofText output (some name))

/-- The definition that the shell knows under a name. -/
def lookup (i : Inquiry) (shell : Shell) (name : Text) : Traced Definition := do
  Traced.note (.lookup name i.shell.name)
  match i.unfit? name with
  | some cause => Traced.fail (.escape cause)
  | none => do
      Traced.called (i.call name)
      Traced.ofExcept (i.definition name (shell (i.call name)))

end Inquiry

/-- A source of definitions. -/
inductive Provider where
  | catalog (c : Catalog)
  | shell (i : Inquiry)

namespace Provider

/-- The definition of a function. Every lookup leaves a mark in the trace. -/
def lookup (p : Provider) (shell : Shell) (name : Text) : Traced Definition := do
  Traced.asked name
  match p with
  | .catalog c =>
      match c.find? name with
      | some d => pure d
      | none => .fail (.unknownFunction name)
  | .shell i => i.lookup shell name

/-- Whether a function is defined; a shell that cannot be asked is a failure all the same. -/
def has (p : Provider) (shell : Shell) (name : Text) : Traced Bool :=
  let found : Traced Bool := do
    let _ ← p.lookup shell name
    pure true
  found.orElse fun failure =>
    match failure with
    | .unknownFunction _ => pure false
    | _ => .fail failure

/-- The first name that a source lists; a shell lists none. -/
def firstName? : Provider → Option Text
  | .catalog c => c.names.head?
  | .shell _ => none

end Provider

end ShellDocs
