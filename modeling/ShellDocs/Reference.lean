import ShellDocs.Files.Resolve
import ShellDocs.Traced

/-!
# References to documentation files

A function may name a file instead of carrying its documentation. A line is a reference when it
is one of two commands and a path. Documentation that is exactly one such line is replaced by the
content of the file; when the file cannot be read the line stands for itself.
-/

namespace ShellDocs

namespace Reference

/-- The commands that show a file. -/
def commands : List Text := ["docsh", "cat"]

/-- What stands after a colon and at least one blank, or the text itself. -/
def skipColon (t : Text) : Text :=
  match t with
  | ':' :: c :: rest => if Text.isBlank c then Text.skipBlanks rest else t
  | _ => t

/-- What stands after one of the commands and at least one blank. -/
def afterCommand? (t : Text) : Option Text :=
  commands.findSome? fun command =>
    match Text.after? command t with
    | some (c :: rest) => if Text.isBlank c then some (Text.skipBlanks rest) else none
    | _ => none

/-- A quote of either kind. -/
def isQuote (c : Char) : Bool := (Quote.ofChar? c).isSome

/-- The path that a line refers to, without the quotes around it. It starts with a character that
is no white space and holds no newline. -/
def path? (line : Text) : Option Text := do
  let argument ← afterCommand? (skipColon (Text.skipBlanks line))
  let first ← argument.head?
  if Text.isSpace first then none
  let content ← Text.lineContent? argument
  pure (Text.trim isQuote (Text.dropTailBlanks content))

/-- The path of the file that a reference leads to: the home directory is put in, and a relative
path is seen from `base`, or else from the current directory. -/
def target (d : Disk) (base : Option Path) (reference : Text) : Except Escape Path := do
  let p ← d.expandHome (.ofText reference)
  if p.isAbsolute then pure p
  else do
    let base ← match base with
      | some base => pure base
      | none => d.currentDirectory
    pure (base.append p)

/-- The documentation in a file. -/
def readFile (d : Disk) (path : Text) : Except ReadFault Docstring :=
  match d.readBytes path with
  | .error fault => .error (.file fault)
  | .ok bytes =>
      match Utf8.decode bytes with
      | .error fault => .error (.encoding fault)
      | .ok text => .ok (Docstring.ofFile (Text.uniformNewlines text))

/-- The documentation that a reference leads to. -/
def readFrom (d : Disk) (base : Option Path) (reference : Text) : Traced Docstring :=
  match target d base reference with
  | .error cause => .fail (.escape cause)
  | .ok target =>
      let path := target.toText
      if !d.user.canName path then .fail (.escape .badPath)
      else
        match readFile d path with
        | .error fault => .fail (.unreadableDocs path fault)
        | .ok docs => do
            Traced.note (.docsRead path)
            pure docs

/-- The documentation with a reference replaced by what it leads to. -/
def resolveFrom (d : Disk) (base : Option Path) (docs : Docstring) : Traced Docstring :=
  match docs.lines with
  | [line] =>
      match path? line with
      | none => pure docs
      | some reference =>
          (readFrom d base reference).orElse fun failure =>
            match failure with
            | .unreadableDocs _ _ => do
                Traced.note (.referenceKept failure)
                pure docs
            | _ => .fail failure
  | _ => pure docs

/-- The documentation that a reference leads to, as seen from a directory. -/
def read (d : Disk) (base : Path) (reference : Text) : Traced Docstring :=
  readFrom d (some base) reference

/-- The documentation with a reference replaced by what it leads to, as seen from a directory. -/
def resolve (d : Disk) (base : Path) (docs : Docstring) : Traced Docstring :=
  resolveFrom d (some base) docs

end Reference

end ShellDocs
