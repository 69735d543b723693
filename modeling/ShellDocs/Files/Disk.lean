import ShellDocs.Files.Tree
import ShellDocs.Files.User

/-!
# Files as a process sees them

A `Disk` is a file tree with a current directory and a user. `seek` finds what a path leads to
through all links, and `seekLink` what stands at the path itself. Operations that change the tree
return the new disk; those that fail say why, and which path was given.
-/

namespace ShellDocs

/-- A file tree as a process sees it. -/
structure Disk where
  tree : Tree
  cwd : Location
  user : User

namespace Disk

/-- The number of bytes that no path reaches, the end mark of a path being one of them. -/
def pathLimit : Nat := 4096

/-- The walk along a path from the root or the current directory, through a link at its end if
`last` says so. The empty path leads nowhere, nor does one that no file can have. -/
def reach (d : Disk) (last : Bool) (path : Text) : Except Errno Tree.Spot :=
  if path.isEmpty || !d.user.canName path then .error .noEntry
  else if pathLimit ≤ (Utf8.encode path).length then .error .nameTooLong
  else
    d.tree.follow last Tree.linkLimit (if path.head? = some '/' then [] else d.cwd)
      (Text.fields '/' path)

/-- What a path leads to. -/
def seek (d : Disk) (path : Text) : Except Errno Tree.Spot := d.reach true path

/-- What stands at a path, be it a link. -/
def seekLink (d : Disk) (path : Text) : Except Errno Tree.Spot := d.reach false path

/-- The content of a file. -/
def readBytes (d : Disk) (path : Text) : Except FileFault Bytes :=
  match d.seek path with
  | .ok (.taken l e) =>
      if !d.tree.permits .read l then .error (.of .denied path)
      else
        match e with
        | .file content => .ok content
        | .directory => .error (.of .isDirectory path)
        | .link _ => .error (.of .loop path)
  | .ok (.free _) => .error (.of .noEntry path)
  | .error e => .error (.of e path)

/-- What the system tells of a path, unless an error leaves it open. -/
def ask (d : Disk) (path : Text) (tells : Entry → Bool) : Except FileFault Bool :=
  match d.seek path with
  | .ok (.taken _ e) => .ok (tells e)
  | .ok (.free _) => .ok false
  | .error e => if e.tellsAbsence then .ok false else .error (.of e path)

/-- Whether something stands at a path. -/
def exists? (d : Disk) (path : Text) : Except FileFault Bool := d.ask path fun _ => true

/-- Whether a file stands at a path. -/
def isFile? (d : Disk) (path : Text) : Except FileFault Bool :=
  d.ask path fun e =>
    match e with
    | .file _ => true
    | _ => false

/-- Whether something stands at a path, with every error counted as a no. -/
def holds (d : Disk) (path : Text) : Bool :=
  match d.seek path with
  | .ok (.taken _ _) => true
  | _ => false

/-- Whether something stands at a path, be it a link that leads nowhere, with every error counted as
a no. -/
def holdsLink (d : Disk) (path : Text) : Bool :=
  match d.seekLink path with
  | .ok (.taken _ _) => true
  | _ => false

/-- Whether a directory stands at a path, with every error counted as a no. -/
def isDirectory (d : Disk) (path : Text) : Bool :=
  match d.seek path with
  | .ok (.taken _ .directory) => true
  | _ => false

/-- Where the link leads that stands at a path, if one does. -/
def linkAt? (d : Disk) (path : Text) : Option Text :=
  match d.seekLink path with
  | .ok (.taken _ (.link target)) => some target
  | _ => none

/-- The disk with an entry put at a location. -/
def put (d : Disk) (l : Location) (e : Entry) : Disk := { d with tree := d.tree.put l e }

/-- Whether the process may put something into the directory of a location, or take it away. -/
def permitsIn (d : Disk) (l : Location) : Bool := d.tree.permits .change l.dropLast

/-- The disk with a content written to the file at a location. -/
def fill (d : Disk) (l : Location) (content : Bytes) : Disk :=
  { d with tree := d.tree.fill l content }

/-- The disk with a file written at a path. -/
def write (d : Disk) (path : Text) (content : Bytes) : Except FileFault Disk :=
  match d.seek path with
  | .ok (.taken l (.file _)) =>
      if d.tree.permits .change l then .ok (d.fill l content) else .error (.of .denied path)
  | .ok (.taken _ .directory) => .error (.of .isDirectory path)
  | .ok (.taken _ (.link _)) => .error (.of .loop path)
  | .ok (.free l) => if d.permitsIn l then .ok (d.fill l content) else .error (.of .denied path)
  | .error e => .error (.of e path)

/-- The disk with a directory made at a path where nothing stands. -/
def makeDirectory (d : Disk) (path : Text) : Except FileFault Disk :=
  match d.seekLink path with
  | .ok (.taken _ _) => .error (.of .exists path)
  | .ok (.free l) =>
      if d.permitsIn l then .ok (d.put l .directory) else .error (.of .denied path)
  | .error e => .error (.of e path)

/-- The disk with a directory and the missing ones above it. A directory that is there already
is left alone. There are at most `fuel` to make. -/
def makeDirectories (d : Disk) : Nat → Path → Disk × Option FileFault
  | 0, _ => (d, none)
  | fuel + 1, path =>
      let written := path.toText
      let settle (d : Disk) : Disk × Option FileFault :=
        match d.makeDirectory written with
        | .ok d => (d, none)
        | .error fault => if d.isDirectory written then (d, none) else (d, some fault)
      match d.makeDirectory written with
      | .error ⟨.noEntry, _, _⟩ =>
          match makeDirectories d fuel path.parent with
          | (d, none) => settle d
          | failed => failed
      | _ => settle d

/-- The disk with the file or the link at `source` moved to `target`, in place of what stands there,
unless that is a directory. Nothing is done if both are names of one file. -/
def move (d : Disk) (source target : Text) : Except FileFault Disk :=
  match d.seekLink source, d.seekLink target with
  | .ok (.taken here e), .ok there =>
      if e ≠ .directory && d.tree.sameFile here there.location then .ok d
      else if !d.permitsIn here || !d.permitsIn there.location then
        .error ⟨.denied, source, some target⟩
      else
        match e, there with
        | .directory, _ => .error ⟨.isDirectory, source, some target⟩
        | _, .taken _ .directory => .error ⟨.isDirectory, source, some target⟩
        | _, _ => .ok { d with tree := d.tree.move here there.location e }
  | .ok (.free _), _ => .error ⟨.noEntry, source, some target⟩
  | .error e, _ => .error ⟨e, source, some target⟩
  | _, .error e => .error ⟨e, source, some target⟩

/-- The disk without the file or the link at a path. -/
def remove (d : Disk) (path : Text) : Except FileFault Disk :=
  match d.seekLink path with
  | .ok (.taken l e) =>
      if !d.permitsIn l then .error (.of .denied path)
      else if e = .directory then .error (.of .isDirectory path)
      else .ok { d with tree := d.tree.erase l }
  | .ok (.free _) => .error (.of .noEntry path)
  | .error e => .error (.of e path)

end Disk

end ShellDocs
