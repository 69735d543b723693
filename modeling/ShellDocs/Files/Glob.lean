import ShellDocs.Files.Disk

/-!
# File name patterns

In a pattern `*` stands for any run of characters, `?` for one character, and a bracketed set for
one character of it, or one not in it after `!`. A pattern is expanded directory by directory; a
name that starts with a dot is found only by a pattern that does. The matches of a pattern come in
the order of their code points.
-/

namespace ShellDocs.Glob

/-- One element of a pattern. -/
inductive Piece where
  | literal (c : Char)
  | anyChar
  | anyRun
  | set (negated : Bool) (ranges : List (Char × Char))
  deriving DecidableEq, Repr

/-- Whether a text holds a character with a meaning in patterns. -/
def hasMagic (t : Text) : Bool := t.any fun c => c == '*' || c == '?' || c == '['

/-- The inside of a set and what follows its closing bracket. A bracket right after the opening
one, or after the negation, belongs to the set. -/
def setBody? (t : Text) : Option (Text × Text) :=
  let skip := match t with
    | '!' :: ']' :: _ => 2
    | '!' :: _ => 1
    | ']' :: _ => 1
    | _ => 0
  let rest := t.drop skip
  match rest.dropWhile (· != ']') with
  | _ :: tail => some (t.take skip ++ rest.takeWhile (· != ']'), tail)
  | [] => none

/-- The inside of a set cut at the dashes that make ranges. A dash makes a range when a character
stands before it; after a range the next two characters make none. -/
def chunks (reserve : Nat) (chunk : Text) : Text → List Text
  | [] => [chunk]
  | c :: rest =>
      if c = '-' ∧ reserve = 0 then chunk :: chunks 2 [] rest
      else chunks (reserve - 1) (chunk ++ [c]) rest

/-- The chunks with a dash at the very end taken as a character. -/
def closeChunks (cs : List Text) : List Text :=
  match cs.reverse with
  | [] :: last :: before => ((last ++ ['-']) :: before).reverse
  | _ => cs

/-- The chunks with the empty ranges between them removed, from the last to the first. -/
def dropEmptyRanges : List Text → List Text
  | [] => []
  | first :: rest =>
      match dropEmptyRanges rest with
      | [] => [first]
      | next :: others =>
          match first.getLast?, next with
          | some a, b :: tail =>
              if b < a then (first.dropLast ++ tail) :: others else first :: next :: others
          | _, _ => first :: next :: others

/-- The ranges of a list of chunks: a range joins two neighbours, and every other character
stands for itself. -/
def chunkRanges : List Text → List (Char × Char)
  | [] => []
  | [chunk] => chunk.map fun c => (c, c)
  | chunk :: next :: rest =>
      match chunk.getLast?, next with
      | some a, b :: tail =>
          chunk.dropLast.map (fun c => (c, c)) ++ (a, b) :: chunkRanges (tail :: rest)
      | _, _ => chunk.map (fun c => (c, c)) ++ chunkRanges (next :: rest)
termination_by cs => cs.length

/-- The set with the given inside. It is negated when `!` comes first once the empty ranges are
gone; a dash right after the negation stands for itself. -/
def setOf (body : Text) : Piece :=
  let reserve := if body.head? = some '!' then 2 else 1
  match dropEmptyRanges (closeChunks (chunks reserve [] body)) with
  | ['!'] :: next :: rest => .set true (('-', '-') :: chunkRanges (next :: rest))
  | ('!' :: first) :: rest => .set true (chunkRanges (first :: rest))
  | cs => .set false (chunkRanges cs)

/-- The elements of a pattern; a bracket that is never closed stands for itself. There are at
most `fuel`. -/
def pieces : Nat → Text → List Piece
  | 0, _ => []
  | _ + 1, [] => []
  | fuel + 1, c :: rest =>
      if c = '*' then .anyRun :: pieces fuel rest
      else if c = '?' then .anyChar :: pieces fuel rest
      else if c = '[' then
        match setBody? rest with
        | some (body, tail) => setOf body :: pieces fuel tail
        | none => .literal c :: pieces fuel rest
      else .literal c :: pieces fuel rest

/-- Whether an element stands for a character. -/
def Piece.accepts (p : Piece) (c : Char) : Bool :=
  match p with
  | .literal d => c == d
  | .anyChar => true
  | .anyRun => true
  | .set negated ranges => (ranges.any fun r => r.1 ≤ c && c ≤ r.2) != negated

/-- Whether the elements stand for the whole name. -/
def accepts : List Piece → Text → Bool
  | [], [] => true
  | [], _ :: _ => false
  | .anyRun :: ps, name => run (accepts ps) name
  | p :: ps, c :: name => p.accepts c && accepts ps name
  | _ :: _, [] => false
where
  /-- Whether some end of the name satisfies `rest`. -/
  run (rest : Text → Bool) : Text → Bool
    | [] => rest []
    | c :: name => rest (c :: name) || run rest name

/-- Whether a name in a directory matches a pattern. -/
def acceptsName (pattern name : Text) : Bool :=
  (pattern.head? = some '.' || name.head? ≠ some '.') &&
    accepts (pieces pattern.length pattern) name

/-- The directory and the last part of a path. Slashes at the end of the directory are dropped
unless it has nothing else. -/
def splitLast (path : Text) : Text × Text :=
  let last := (path.reverse.takeWhile (· != '/')).reverse
  let head := path.take (path.length - last.length)
  let trimmed := Text.dropTail (· == '/') head
  (if trimmed.isEmpty then head else trimmed, last)

/-- A name as seen from a directory. -/
def joinTo (directory name : Text) : Text :=
  if directory.isEmpty || Text.endsIn ['/'] directory then directory ++ name
  else directory ++ '/' :: name

/-- Whether a name in a directory is that of a directory, or of a link to one. The kind of an entry
is listed with its name; only a link has to be gone through. -/
def isDirectoryIn (d : Disk) (l : Location) (directory name : Text) : Bool :=
  match d.tree.find? (l ++ [name]) with
  | some .directory => true
  | some (.link _) => d.isDirectory (joinTo directory name)
  | _ => false

/-- The names in a directory, or only those of directories and of links to some; none when it cannot
be read. -/
def listing (d : Disk) (directory : Text) (directoriesOnly : Bool) : List Text :=
  let directory := if directory.isEmpty then ['.'] else directory
  match d.seek directory with
  | .ok (.taken l .directory) =>
      if !d.tree.permits .read l then []
      else if directoriesOnly then (d.tree.names l).filter (isDirectoryIn d l directory)
      else d.tree.names l
  | _ => []

/-- The paths that match a pattern, of at most `fuel` parts. -/
def expand (d : Disk) : Nat → Bool → Text → List Text
  | 0, _, _ => []
  | fuel + 1, directoriesOnly, pattern =>
      let (directory, last) := splitLast pattern
      if !hasMagic pattern then
        let found := if last.isEmpty then d.isDirectory directory else d.holdsLink pattern
        if found then [pattern] else []
      else if directory.isEmpty then
        (listing d [] directoriesOnly).filter (acceptsName last)
      else
        let directories :=
          if directory ≠ pattern ∧ hasMagic directory then expand d fuel true directory
          else [directory]
        directories.flatMap fun dir =>
          let names :=
            if hasMagic last then (listing d dir directoriesOnly).filter (acceptsName last)
            else if last.isEmpty then (if d.isDirectory dir then [last] else [])
            else if d.holdsLink (joinTo dir last) then [last] else []
          names.map (joinTo dir)

/-- The paths that match a pattern, in order. -/
def matching (d : Disk) (pattern : Text) : List Text :=
  Text.sort (expand d (pattern.length + 1) false pattern)

/-- Whether a pattern has a directory listed that no file can have for its path. The first directory
to be listed stands before the first part with a character that has a meaning. -/
def listsUnnamed (u : User) (pattern : Text) : Bool :=
  hasMagic pattern &&
    ((Text.fields '/' pattern).takeWhile (!hasMagic ·)).any (!u.canName ·)

end ShellDocs.Glob
