import ShellDocs.Failure
import ShellDocs.Files.Disk

/-!
# Where a path leads

A path is made absolute by putting in home directories, going through all links, and undoing each
`..` by the part before it. What does not exist is taken as it is written. None of this is foreseen
to fail, so what goes wrong escapes.
-/

namespace ShellDocs.Disk

/-- The path with the home directory put in of the user that it starts with. -/
def expandHome (d : Disk) (p : Path) : Except Escape Path :=
  match p.root, p.parts with
  | [], ('~' :: name) :: _ =>
      if !d.user.canName name then .error .badPath
      else
        match p.expandHome? d.user with
        | some q => .ok q
        | none => .error .unknownUser
  | _, _ => .ok p

/-- Whether the directory that the process is in has not been removed. -/
def hasCwd (d : Disk) : Bool := d.tree.find? d.cwd = some .directory

/-- The directory that the process is in. -/
def currentDirectory (d : Disk) : Except Escape Path :=
  if d.hasCwd then .ok ⟨['/'], d.cwd⟩ else .error .unanswered

/-- The path that parts lead to from `p`, up to the first link, which `leap` goes through. The links
in `seen` are being gone through already; where one of them comes again, the error is the path as
far as it goes. -/
def settleParts (d : Disk) (seen : List Text)
    (leap : List Text → Path → Text → Except (Option Path) Path) (p : Path) :
    List Text → Except (Option Path) Path
  | [] => .ok p
  | part :: rest =>
      let next := p.goOn part
      match if Path.isName part then d.linkAt? next.toText else none with
      | none => settleParts d seen leap next rest
      | some target =>
          let settled :=
            if seen.contains next.toText then .error (some next)
            else leap (next.toText :: seen) p target
          match settled with
          | .ok q => settleParts d seen leap q rest
          | .error stop => .error (stop.map (rest.foldl Path.goOn))

/-- The path that a link with a target leads to, as seen from the path `p` of its directory. There
are at most so many links inside one another; one more is an error without a path. -/
def settle (d : Disk) : Nat → List Text → Path → Text → Except (Option Path) Path
  | 0, _, _, _ => .error none
  | depth + 1, seen, p, target =>
      d.settleParts seen (d.settle depth) (if target.head? = some '/' then ⟨['/'], []⟩ else p)
        (Text.fields '/' target)

/-- The most links inside one another that a path is followed through. -/
def nestingLimit : Nat := 900

/-- The path without links that a path leads to. Where links lead round in a circle, it ends at the
first one that comes again; where they lie too deep inside one another, there is none. -/
def unlinked? (d : Disk) (p : Path) : Option Path :=
  let start : Path := ⟨if p.isAbsolute then ['/'] else [], []⟩
  match d.settleParts [] (d.settle nestingLimit) start p.parts with
  | .ok q => some q
  | .error stop => stop

/-- The absolute path without links and `..` that a path leads to. -/
def resolve (d : Disk) (p : Path) : Except Escape Path :=
  if !d.user.canName p.toText then .error .badPath
  else
    match d.unlinked? p with
    | none => .error .unanswered
    | some settled =>
        if !settled.isAbsolute && !d.hasCwd then .error .unanswered
        else
          let q := settled.resolve d.cwd
          match d.seek q.toText with
          | .error .loop => .error .unanswered
          | _ => .ok q

end ShellDocs.Disk
