import ShellDocs.Files.Path
import ShellDocs.Text.Utf8

/-!
# Users

What a process knows of the user that it runs for: the home directory, those of the other users,
and how texts become bytes. A path that starts with a tilde and a name starts at the home directory
of the user with that name, and one that starts with a bare tilde at the user's own.
-/

namespace ShellDocs

/-- How the texts of a process become bytes, in file names and in files that have no encoding of
their own. A text has bytes if all of its characters do, and bytes need not be a text. -/
structure Locale where
  /-- Whether a character has bytes. -/
  has : Char → Bool
  /-- The bytes of a text whose characters have some. -/
  bytes : Text → Bytes
  decode : Bytes → Option Text
  has_ascii : ∀ c, c.val < 128 → has c = true

namespace Locale

/-- The bytes of a text, if it has some. -/
def encode (l : Locale) (t : Text) : Option Bytes :=
  if t.all l.has then some (l.bytes t) else none

/-- Whether a text can be given to the system: it holds no NUL, and it has bytes. -/
def canPass (l : Locale) (t : Text) : Bool := t.all fun c => c != '\x00' && l.has c

/-- The locale in which every text is written in UTF-8. -/
def utf8 : Locale where
  has _ := true
  bytes := Utf8.encode
  decode bytes := (Utf8.decode bytes).toOption
  has_ascii _ _ := rfl

end Locale

/-- The user that a process runs for. -/
structure User where
  home : Text
  /-- The home directories of the users that have a name. -/
  others : List (Text × Text) := []
  locale : Locale := .utf8

/-- A user of whom only the home directory is known. -/
instance : Coe String User := ⟨fun home => { home := home.toList }⟩

namespace User

/-- The home directory of the user with a name, or the own one for the empty name. -/
def homeOf? (u : User) (name : Text) : Option Text :=
  if name.isEmpty then some u.home else u.others.lookup name

/-- Whether a file can have a text for its name or path. -/
def canName (u : User) (t : Text) : Bool := u.locale.canPass t

end User

namespace Path

/-- The name after the tilde that a text starts with. -/
def tildeName? : Text → Option Text
  | '~' :: rest => some (rest.takeWhile (· != '/'))
  | _ => none

/-- A home directory with what follows the tilde; slashes at its end are dropped. -/
def homeText (home rest : Text) : Text :=
  let t := Text.dropTail (· == '/') home ++ rest
  if t.isEmpty then ['/'] else t

/-- A text with a tilde and a name at its start replaced by the home directory of the user; the
name of an unknown user is left as it stands. -/
def expandHomeText (u : User) : Text → Text
  | '~' :: rest =>
      match u.homeOf? (rest.takeWhile (· != '/')) with
      | some home => homeText home (rest.dropWhile (· != '/'))
      | none => '~' :: rest
  | t => t

/-- The path with a first part that starts with a tilde replaced by the home directory of the user.
An unknown user has none, and a home directory that starts with a tilde itself is none. -/
def expandHome? (u : User) (p : Path) : Option Path :=
  match p.root, p.parts with
  | [], ('~' :: name) :: rest =>
      match u.homeOf? name with
      | some home =>
          if (homeText home []).head? = some '~' then none
          else some ((ofText (homeText home [])).append ⟨[], rest⟩)
      | none => none
  | _, _ => some p

end Path

end ShellDocs
