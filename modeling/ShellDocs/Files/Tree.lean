import ShellDocs.Files.Path
import ShellDocs.Text.Quoted
import ShellDocs.Text.Space
import ShellDocs.Text.Utf8

/-!
# The file tree

A tree is a finite map from locations to directories, files and symbolic links, with the rights
that a process lacks. A file may have several names (`sameFile`), and what is written to it is seen
under all of them (`fill`). A path is walked part by part: `follow` goes through the links on the
way, and through one at the end if it is asked to. A walk that fails says why with an `Errno`.
-/

namespace ShellDocs

/-- A place in the tree: the names from the root down to it. -/
abbrev Location := List Text

/-- What stands at a location. -/
inductive Entry where
  | directory
  | file (content : Bytes)
  /-- A symbolic link to a path, which is seen from the directory of the link. -/
  | link (target : Text)
  deriving DecidableEq, Repr

/-- What a process may want to do. -/
inductive Access where
  /-- Go through a directory. -/
  | enter
  /-- Read a file, or list a directory. -/
  | read
  /-- Write a file, or change what is in a directory. -/
  | change
  deriving DecidableEq, Repr

/-- All that a process may want to do. -/
def Access.all : List Access := [.enter, .read, .change]

/-- Why an operation on the tree fails. -/
inductive Errno where
  | noEntry
  | denied
  | exists
  | notDirectory
  | isDirectory
  | nameTooLong
  | loop
  deriving DecidableEq, Repr

/-- The number of an error. -/
def Errno.code : Errno → Nat
  | .noEntry => 2
  | .denied => 13
  | .exists => 17
  | .notDirectory => 20
  | .isDirectory => 21
  | .nameTooLong => 36
  | .loop => 40

/-- An error in words. -/
def Errno.text : Errno → Text
  | .noEntry => "No such file or directory"
  | .denied => "Permission denied"
  | .exists => "File exists"
  | .notDirectory => "Not a directory"
  | .isDirectory => "Is a directory"
  | .nameTooLong => "File name too long"
  | .loop => "Too many levels of symbolic links"

/-- Whether an error tells that nothing stands at a path. The others leave it open. -/
def Errno.tellsAbsence : Errno → Bool
  | .noEntry | .notDirectory | .loop => true
  | _ => false

/-- An error together with the path that was given, and the one that a file was to be moved to. -/
structure FileFault where
  errno : Errno
  path : Text
  target : Option Text
  deriving DecidableEq, Repr

/-- The fault of an operation on one path. -/
def FileFault.of (errno : Errno) (path : Text) : FileFault := ⟨errno, path, none⟩

/-- The fault in words. -/
def FileFault.message (f : FileFault) : Text :=
  ("[Errno " : Text) ++ Text.ofNat f.errno.code ++ "] " ++ f.errno.text ++ ": " ++
    Text.quoted f.path ++ (match f.target with
      | some target => (" -> " : Text) ++ Text.quoted target
      | none => [])

/-- A finite map from locations to entries, and what the process may not do at which location. The
root is always a directory. -/
structure Tree where
  entries : List (Location × Entry)
  denied : List (Access × Location) := []
  /-- The number of each file or link that has several names, under every one of them. -/
  numbers : List (Location × Nat) := []
  deriving DecidableEq, Repr

namespace Tree

/-- The tree with nothing but its root. -/
def empty : Tree := { entries := [] }

/-- What stands at a location. -/
def find? (t : Tree) (l : Location) : Option Entry :=
  if l.isEmpty then some .directory else t.entries.lookup l

/-- Whether the process may do something at a location. -/
def permits (t : Tree) (a : Access) (l : Location) : Bool := !t.denied.contains (a, l)

/-- Whether two locations are names of one file or link. They have one number then, and the same
stands at both, with the same rights. -/
def sameFile (t : Tree) (l m : Location) : Bool :=
  l == m ||
    (t.find? l).isSome && (t.numbers.lookup l).isSome &&
      t.numbers.lookup m == t.numbers.lookup l && t.find? m == t.find? l &&
      Access.all.all fun a => t.permits a m == t.permits a l

/-- The tree with a new entry put at a location, in place of what stood there. -/
def put (t : Tree) (l : Location) (e : Entry) : Tree :=
  { t with
    entries :=
      if (t.entries.lookup l).isSome then
        t.entries.map fun x => if x.1 = l then (x.1, e) else x
      else t.entries ++ [(l, e)]
    numbers := t.numbers.filter (·.1 ≠ l) }

/-- The tree with a content written to the file at a location, which is seen under all its names, or
to a new file when nothing stands there. -/
def fill (t : Tree) (l : Location) (content : Bytes) : Tree :=
  if (t.find? l).isSome then
    { t with
      entries := t.entries.map fun x => if t.sameFile l x.1 then (x.1, .file content) else x }
  else t.put l (.file content)

/-- The tree without what stood at a location. -/
def erase (t : Tree) (l : Location) : Tree where
  entries := t.entries.filter (·.1 ≠ l)
  denied := t.denied.filter (·.2 ≠ l)
  numbers := t.numbers.filter (·.1 ≠ l)

/-- The tree with an entry that stood at `here` moved to `there`, together with its number and the
rights to it. -/
def move (t : Tree) (here there : Location) (e : Entry) : Tree :=
  let rights := t.denied.filter (·.2 ≠ there)
  let numbers := t.numbers.filter (·.1 ≠ there)
  { entries := ((t.put there e).erase here).entries
    denied := rights.map fun x => if x.2 = here then (x.1, there) else x
    numbers := numbers.map fun x => if x.1 = here then (there, x.2) else x }

/-- The tree with an entry and the directories above it. -/
def plant (t : Tree) (l : Location) (e : Entry) : Tree :=
  let above := (List.range l.length).map l.take
  let t := above.foldl (fun t l => if (t.find? l).isSome then t else t.put l .directory) t
  t.put l e

/-- The names in a directory. -/
def names (t : Tree) (l : Location) : List Text :=
  t.entries.filterMap fun x => if x.1.dropLast = l && !x.1.isEmpty then x.1.getLast? else none

/-- The content of the file at a location. -/
def content? (t : Tree) (l : Location) : Option Bytes :=
  match t.find? l with
  | some (.file content) => some content
  | _ => none

/-- The files that are new or hold something else in `after`, with their content, and those that
are gone. -/
def changes (before after : Tree) : List (Location × Option Bytes) :=
  let written := after.entries.filterMap fun x =>
    match x.2 with
    | .file content =>
        if before.content? x.1 = some content then none else some (x.1, some content)
    | _ => none
  let gone := before.entries.filterMap fun x =>
    match x.2 with
    | .file _ => if (after.content? x.1).isSome then none else some (x.1, none)
    | _ => none
  written ++ gone

/-- Where a walk ends: at an entry, or at a free place in a directory. -/
inductive Spot where
  | taken (location : Location) (entry : Entry)
  | free (location : Location)

/-- The place where a walk ends. -/
def Spot.location : Spot → Location
  | .taken l _ => l
  | .free l => l

/-- The most bytes a name may have. -/
def nameLimit : Nat := 255

/-- The most links that a walk goes through. -/
def linkLimit : Nat := 40

/-- The walk from `here` along the parts of a path, up to the first link, which `leap` goes
through. A link at the end is gone through only if `last` says so. An empty part and a dot stay in
the directory, two dots go up, and only the last part may name nothing. -/
def advance (t : Tree) (last : Bool) (leap : Location → List Text → Except Errno Spot)
    (here : Location) : List Text → Except Errno Spot
  | [] =>
      match t.find? here with
      | some e => .ok (.taken here e)
      | none => .error .noEntry
  | part :: rest =>
      match t.find? here with
      | none => .error .noEntry
      | some .directory =>
          if part.isEmpty then advance t last leap here rest
          else if !t.permits .enter here then .error .denied
          else if part == ['.'] then advance t last leap here rest
          else if part == ['.', '.'] then advance t last leap here.dropLast rest
          else if nameLimit < (Utf8.encode part).length then .error .nameTooLong
          else
            match t.find? (here ++ [part]) with
            | some (.link target) =>
                if rest.isEmpty && !last then .ok (.taken (here ++ [part]) (.link target))
                else
                  leap (if target.head? = some '/' then [] else here)
                    (Text.fields '/' target ++ rest)
            | some _ => advance t last leap (here ++ [part]) rest
            | none =>
                if rest.isEmpty then .ok (.free (here ++ [part])) else .error .noEntry
      | some _ => .error .notDirectory

/-- The walk from a location along the parts of a path, through so many links at most. -/
def follow (t : Tree) (last : Bool) : Nat → Location → List Text → Except Errno Spot
  | 0 => t.advance last fun _ _ => .error .loop
  | links + 1 => t.advance last (t.follow last links)

end Tree

end ShellDocs
