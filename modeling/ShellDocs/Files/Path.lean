import ShellDocs.Text.Basic

/-!
# Paths

A path is a root and a list of parts. Reading a path drops the parts that say nothing, the empty
ones and single dots, so a path has one written form; the part `..` is kept, because what it means
depends on the file tree.
-/

namespace ShellDocs

/-- A path: its root, which is empty for a relative path, and its parts. -/
structure Path where
  root : Text
  parts : List Text
  deriving DecidableEq, Repr

namespace Path

/-- The root that a text starts with: a slash, or exactly two of them, which are kept apart. -/
def rootOf : Text → Text
  | '/' :: '/' :: '/' :: _ => ['/']
  | '/' :: '/' :: _ => ['/', '/']
  | '/' :: _ => ['/']
  | _ => []

/-- The path that a text names. -/
def ofText (t : Text) : Path :=
  ⟨rootOf t, (Text.fields '/' t).filter fun part => !part.isEmpty && part != ['.']⟩

/-- The written form; the relative path without parts is a dot. -/
def toText (p : Path) : Text :=
  if p.root.isEmpty && p.parts.isEmpty then ['.'] else p.root ++ Text.join ['/'] p.parts

/-- Whether the path starts at the root of the tree. -/
def isAbsolute (p : Path) : Bool := !p.root.isEmpty

/-- The path `q` as seen from `p`; an absolute path is the same from everywhere. -/
def append (p q : Path) : Path := if q.isAbsolute then q else ⟨p.root, p.parts ++ q.parts⟩

/-- The path without its last part. -/
def parent (p : Path) : Path := ⟨p.root, p.parts.dropLast⟩

/-- The path that goes up from this one. From a relative path that is nowhere, or has gone up
already, it goes up by a part more. -/
def up (p : Path) : Path :=
  match p.parts.getLast? with
  | none => if p.isAbsolute then p else ⟨p.root, [['.', '.']]⟩
  | some last => if last = ['.', '.'] then ⟨p.root, p.parts ++ [['.', '.']]⟩ else p.parent

/-- Whether a part names something in a directory. -/
def isName (part : Text) : Bool := !part.isEmpty && part != ['.'] && part != ['.', '.']

/-- The path that goes on from this one by a part. -/
def goOn (p : Path) (part : Text) : Path :=
  if isName part then ⟨p.root, p.parts ++ [part]⟩
  else if part = ['.', '.'] then p.up
  else p

/-- The last part, empty when there is none. -/
def name (p : Path) : Text := p.parts.getLast?.getD []

/-- The name up to its suffix: the last dot and what follows it, unless the name starts or ends
there. -/
def stemOf (name : Text) : Text :=
  let suffix := (name.reverse.takeWhile (· != '.')).length + 1
  if suffix < name.length ∧ 1 < suffix then name.take (name.length - suffix) else name

/-- The path with the suffix of its last part replaced, or added when there is none. -/
def withSuffix (suffix : Text) (p : Path) : Path :=
  ⟨p.root, p.parts.dropLast ++ [stemOf p.name ++ suffix]⟩

/-- The parts with every `..` undone by dropping the part before it. -/
def foldParents (parts : List Text) : List Text :=
  parts.foldl (fun done part => if part = ['.', '.'] then done.dropLast else done ++ [part]) []

/-- The absolute path with no `..` in it, as seen from the directory `cwd`. This is where the path
leads if it goes through no links. -/
def resolve (cwd : List Text) (p : Path) : Path :=
  ⟨['/'], foldParents (if p.isAbsolute then p.parts else cwd ++ p.parts)⟩

end Path

end ShellDocs
