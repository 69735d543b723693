import ShellDocs.Config.Basic
import ShellDocs.Environment
import ShellDocs.Files.Resolve
import ShellDocs.Toml.Library

/-!
# Configuration files

A configuration is kept in a TOML file: one that is asked for, one that the environment names, or
the usual one in the home directory. Loading reads it into a configuration. Saving edits the file
in place, so comments and other keys stay; the new text is first written to a temporary file
beside it, which is then moved over it.
-/

namespace ShellDocs.Config

/-- The usual place of the configuration file. -/
def usualPath (d : Disk) : Path :=
  (Path.ofText (Path.homeText d.user.home [])).append ⟨[], [".docsh", "config.toml"]⟩

/-- A result of the file system whose failure escapes. -/
def escaping (r : Except Escape α) : Except Failure α := r.mapError .escape

/-- A path with the home directory put in. -/
def expandHome (d : Disk) (t : Text) : Except Failure Path := escaping (d.expandHome (.ofText t))

/-- The absolute path that a text asks for. -/
def askedPath (d : Disk) (t : Text) : Except Failure Path := do
  let p ← expandHome d t
  escaping (d.resolve p)

/-- Whether something stands at a path, when the file system can tell. -/
def standsAt (d : Disk) (p : Path) : Except Failure Bool :=
  match d.exists? p.toText with
  | .ok b => .ok b
  | .error _ => .error (.escape .unanswered)

/-- The path of the configuration file when none is asked for. -/
def impliedPath (d : Disk) (e : Environment) : Except Failure Path :=
  match e.configFile? with
  | some t => expandHome d t
  | none => .ok (usualPath d)

/-- The path of the configuration file. One that is asked for must be there. -/
def path (d : Disk) (e : Environment) (asked : Option Text) : Except Failure Path :=
  match asked.filter (!·.isEmpty) with
  | some t => do
      let p ← askedPath d t
      let there ← standsAt d p
      if there then pure p else .error (.config (.missing p.toText))
  | none => impliedPath d e

/-- Why a file is not read as a table. Faults of form are reported, all else escapes. -/
def refused : Toml.Refusal → Failure
  | .malformed document fault => .config (.malformed document fault)
  | .other cause => .escape cause

/-- The table in a configuration file, as a library reads it. -/
def readTable (d : Disk) (p : Path) (lib : Toml.Library := .builtin) :
    Except Failure Toml.Table :=
  match d.readBytes p.toText with
  | .error fault => .error (.config (.unreadable fault))
  | .ok bytes =>
      match Utf8.decode bytes with
      | .error _ => .error (.escape .badEncoding)
      | .ok text => (lib.read text).mapError refused

/-- The configuration in force: what the file says, or the usual settings when there is none. -/
def load (d : Disk) (e : Environment) (asked : Option Text) (lib : Toml.Library := .builtin) :
    Traced Config := do
  let p ← Traced.ofExcept (path d e asked)
  let there ← Traced.ofExcept (standsAt d p)
  if there then do
    let table ← Traced.ofExcept (readTable d p lib)
    Traced.note (.configLoaded p.toText)
    ofTable table
  else do
    Traced.note .configMissing
    pure {}

/-- Where a configuration is saved: unlike in loading, a file that is asked for need not be
there. -/
def savePath (d : Disk) (e : Environment) (asked : Option Text) : Except Failure Path :=
  match asked.filter (!·.isEmpty) with
  | some t => askedPath d t
  | none => impliedPath d e

/-- Why saving stops: a fault of the file system, which is reported, or a cause that is not. -/
inductive Stop where
  | file (fault : FileFault)
  | escape (cause : Escape)

/-- A result of the file system as a step of saving. -/
def fileStep (r : Except FileFault α) : Except Stop α := r.mapError .file

/-- A cause that escapes as the end of saving. -/
def escapeStep (r : Except Escape α) : Except Stop α := r.mapError .escape

/-- The document in the file at a path, or a new one when nothing stands there. The file is read in
the locale. -/
def currentDocument (d : Disk) (p : Path) (lib : Toml.Library) : Except Stop lib.Document := do
  let there ← fileStep (d.exists? p.toText)
  if there then
    let bytes ← fileStep (d.readBytes p.toText)
    match d.user.locale.decode bytes with
    | none => .error (.escape .badEncoding)
    | some text => escapeStep (lib.parse (Text.uniformNewlines text))
  else pure lib.fresh

/-- The new text of the configuration file. -/
def editedText (d : Disk) (p : Path) (c : Config) (lib : Toml.Library) : Except Stop Text := do
  let doc ← currentDocument d p lib
  let edited ← escapeStep (lib.assignAll doc c.entries)
  pure (lib.dump edited)

/-- The disk that a step of saving leaves, and why it stopped, if it did. -/
structure Saving where
  disk : Disk
  stop : Option Stop

/-- The last steps of saving: the temporary file and the move. A text that has no bytes in the
locale leaves the temporary file without content. -/
def replaceFile (d : Disk) (p temp : Path) (text : Text) : Saving :=
  if !d.user.canName temp.toText then ⟨d, some (.escape .badPath)⟩
  else
    let bytes? := d.user.locale.encode text
    match d.write temp.toText (bytes?.getD []) with
    | .error fault => ⟨d, some (.file fault)⟩
    | .ok d =>
        if bytes?.isNone then ⟨d, some (.escape .badEncoding)⟩
        else
          match d.move temp.toText p.toText with
          | .error fault => ⟨d, some (.file fault)⟩
          | .ok d => ⟨d, none⟩

/-- The steps of saving: the directories, the new text, the temporary file, and the move. -/
def saveSteps (d : Disk) (p temp : Path) (c : Config) (lib : Toml.Library) : Saving :=
  if !d.user.canName p.parent.toText then ⟨d, some (.escape .badPath)⟩
  else
    match d.makeDirectories (p.parts.length + 1) p.parent with
    | (d, some fault) => ⟨d, some (.file fault)⟩
    | (d, none) =>
        match editedText d p c lib with
        | .error stop => ⟨d, some stop⟩
        | .ok text => replaceFile d p temp text

/-- The end of a failed saving: the temporary file is removed if it is there. -/
def abandon (d : Disk) (temp : Path) (fault : FileFault) : Disk × Failure :=
  match d.exists? temp.toText with
  | .error _ => (d, .escape .unanswered)
  | .ok false => (d, .config (.unwritable fault))
  | .ok true =>
      match d.remove temp.toText with
      | .error _ => (d, .escape .blocked)
      | .ok d => (d, .config (.unwritable fault))

/-- The disk with a configuration saved, and the path that it was saved at. The disk may change
even if saving fails. -/
def save (d : Disk) (e : Environment) (asked : Option Text) (c : Config)
    (lib : Toml.Library := .builtin) : Disk × Traced Path :=
  match savePath d e asked with
  | .error failure => (d, .fail failure)
  | .ok p =>
      if p.name.isEmpty then (d, .fail (.escape .badPath))
      else
        let temp := p.withSuffix ".tmp"
        match saveSteps d p temp c lib with
        | ⟨d, none⟩ =>
            (d, do
              Traced.note (.configSaved p.toText)
              pure p)
        | ⟨d, some (.escape cause)⟩ => (d, .fail (.escape cause))
        | ⟨d, some (.file fault)⟩ =>
            let (d, failure) := abandon d temp fault
            (d, .fail failure)

/-- The disk with some settings of the configuration in force changed. -/
def update (d : Disk) (e : Environment) (asked : Option Text) (t : Toml.Table)
    (lib : Toml.Library := .builtin) : Disk × Traced Path :=
  let loaded := load d e asked lib
  match loaded.result with
  | .error failure => (d, ⟨loaded.trace, .error failure⟩)
  | .ok c =>
      let (d, saved) := save d e asked (c.withEntries t) lib
      (d, loaded.bind fun _ => saved)

end ShellDocs.Config
