import ShellDocs.Failure
import ShellDocs.Files.Disk

/-!
# Traced computations

A computation of the program either fails or returns a value, and in both cases leaves a trace: the
notices it would log, the lookups it made and the commands that it ran for them, what it printed or
gave to a pager, and the files as it left them, in order. A failure keeps the trace up to it.
-/

namespace ShellDocs

open Toml (Value)

/-- A remark for the log. -/
inductive Notice where
  | scan (notice : Block.Notice)
  /-- A function's body starts with no documentation. -/
  | undocumented (name : Text)
  /-- A definition in a text has no closing brace. -/
  | definitionOpen (name : Text)
  | lookup (name : Text) (shell : Value)
  | libraryMissing (pattern : Text)
  | docsRead (path : Text)
  /-- A reference cannot be read and stands for itself. -/
  | referenceKept (failure : Failure)
  /-- A word that cannot be looked up is shown as text. -/
  | takenAsText (name : Text) (failure : Failure)
  | configMissing
  | configLoaded (path : Text)
  | configSaved (path : Text)
  | unknownKeys (keys : List Text)

/-- Whether a notice is a warning, which is always shown. -/
def Notice.isWarning : Notice → Bool
  | .libraryMissing _ => true
  | .unknownKeys _ => true
  | _ => false

/-- The wording of a notice of the scan. -/
def Block.Notice.message : Block.Notice → Text
  | .guardSkipped line => ("Skipping guard line: " : Text) ++ line
  | .stopped number line =>
      ("Docstring scan stopped at line " : Text) ++ Text.ofNat number ++ ": " ++ line
  | .hereDocOpen marker =>
      ("Here-doc '" : Text) ++ marker ++ "' not terminated before end of body"
  | .quoteOpen => "Quoted docstring not closed before end of body"

/-- The wording of a notice. -/
def Notice.message : Notice → Text
  | .scan notice => notice.message
  | .undocumented name => ("No docstring found in function '" : Text) ++ name ++ "'"
  | .definitionOpen name => ("Definition of '" : Text) ++ name ++ "' has no closing brace"
  | .lookup name shell =>
      ("Looking up function '" : Text) ++ name ++ "' with " ++ shell.display
  | .libraryMissing pattern => ("Library file not found: " : Text) ++ pattern
  | .docsRead path => ("Read docs from " : Text) ++ path
  | .referenceKept failure =>
      failure.message ++ ("; using the reference line as documentation" : Text)
  | .takenAsText name failure =>
      ("Treating '" : Text) ++ name ++ "' as doc-string text: " ++ failure.message
  | .configMissing => "Config file not found, using defaults"
  | .configLoaded path => ("Loaded config from: " : Text) ++ path
  | .configSaved path => ("Saved config to: " : Text) ++ path
  | .unknownKeys keys => ("Ignoring unknown config keys: " : Text) ++ Text.join ", " keys

/-- A lookup command: the shell, its arguments and the time it is given. -/
structure ShellCall where
  shell : Value
  arguments : List Text
  timeout : Value

/-- A text handed to a pager, which keeps the styles, drops them, or decides for itself. -/
structure Paging where
  text : Text
  styling : Option Bool
  deriving DecidableEq, Repr

/-- One element of a trace. -/
inductive Event where
  | notice (n : Notice)
  /-- A definition is looked up. -/
  | asked (name : Text)
  | call (c : ShellCall)
  | printed (t : Text)
  | paged (p : Paging)
  /-- Files are changed, and the disk is left like this. -/
  | stored (d : Disk)

/-- A result with the trace that led to it. -/
structure Traced (α : Type) where
  trace : List Event
  result : Except Failure α

namespace Traced

/-- The value with an empty trace. -/
def pure (a : α) : Traced α := ⟨[], .ok a⟩

/-- The failure with an empty trace. -/
def fail (f : Failure) : Traced α := ⟨[], .error f⟩

/-- The second computation after the first has succeeded, with their traces in order. -/
def bind (x : Traced α) (f : α → Traced β) : Traced β :=
  match x.result with
  | .ok a => ⟨x.trace ++ (f a).trace, (f a).result⟩
  | .error e => ⟨x.trace, .error e⟩

instance : Monad Traced where
  pure := Traced.pure
  bind := Traced.bind

/-- A remark. -/
def note (n : Notice) : Traced Unit := ⟨[.notice n], .ok ()⟩

/-- Several remarks. -/
def notes (ns : List Notice) : Traced Unit := ⟨ns.map .notice, .ok ()⟩

/-- A definition that is looked up. -/
def asked (name : Text) : Traced Unit := ⟨[.asked name], .ok ()⟩

/-- A command that was run. -/
def called (c : ShellCall) : Traced Unit := ⟨[.call c], .ok ()⟩

/-- A text that is printed. -/
def print (t : Text) : Traced Unit := ⟨[.printed t], .ok ()⟩

/-- A text that is handed to a pager. -/
def page (p : Paging) : Traced Unit := ⟨[.paged p], .ok ()⟩

/-- A computation that leaves the disk like this. -/
def storing (d : Disk) (x : Traced α) : Traced α := ⟨x.trace ++ [.stored d], x.result⟩

/-- A result that leaves no trace. -/
def ofExcept (r : Except Failure α) : Traced α := ⟨[], r⟩

/-- The computation with a failure handed to `handle`; the trace up to it is kept. -/
def orElse (x : Traced α) (handle : Failure → Traced α) : Traced α :=
  match x.result with
  | .ok _ => x
  | .error e => ⟨x.trace ++ (handle e).trace, (handle e).result⟩

/-- The remarks in a trace. -/
def notices (x : Traced α) : List Notice :=
  x.trace.filterMap fun
    | .notice n => some n
    | _ => none

/-- The names that were looked up. -/
def names (x : Traced α) : List Text :=
  x.trace.filterMap fun
    | .asked name => some name
    | _ => none

/-- The commands in a trace. -/
def calls (x : Traced α) : List ShellCall :=
  x.trace.filterMap fun
    | .call c => some c
    | _ => none

/-- All that was printed. -/
def output (x : Traced α) : Text :=
  x.trace.flatMap fun
    | .printed t => t
    | _ => []

/-- The texts that were handed to a pager. -/
def pages (x : Traced α) : List Paging :=
  x.trace.filterMap fun
    | .paged p => some p
    | _ => none

/-- The disk as it is left in the end, when it was `d` at the start. -/
def diskAfter (x : Traced α) (d : Disk) : Disk :=
  x.trace.foldl (fun d event =>
    match event with
    | .stored d' => d'
    | _ => d) d

end Traced

end ShellDocs
