import ShellDocs.Text.Space

/-!
# Documentation blocks

Documentation stands in a function body as a sequence of blocks of three kinds: plain text after
a colon, a quoted string, and a here-document. `docLines` gives the lines of documentation that
a block holds.
-/

namespace ShellDocs

/-- The two quotes of the shell. -/
inductive Quote where
  | single
  | double
  deriving DecidableEq, Repr

namespace Quote

/-- The quote as a character. -/
def char : Quote → Char
  | .single => '\x27'
  | .double => '\x22'

/-- The quote that a character is. -/
def ofChar? (c : Char) : Option Quote :=
  if c = '\x27' then some .single else if c = '\x22' then some .double else none

end Quote

/-- A block of documentation in a function body. -/
inductive Block where
  /-- Unquoted text after a colon. -/
  | plain (text : Text)
  /-- A quoted string after a colon or a render command; `multiline` tells that it does not end
  on its first line. -/
  | quoted (quote : Quote) (text : Text) (multiline : Bool)
  /-- A here-document with its marker. -/
  | hereDoc (marker : Text) (lines : List Text)
  deriving DecidableEq, Repr

namespace Block

/-- The lines of documentation in a block. -/
def docLines : Block → List Text
  | .plain text => [text]
  | .quoted _ text _ => Text.splitNewlines text
  | .hereDoc _ lines => lines

/-- The characters that a backslash protects inside double quotes. -/
def isProtected (c : Char) : Bool :=
  c == '\x22' || c == '\x5c' || c == '$' || c == '\x60' || c == '!'

/-- The text with each protecting backslash dropped, read from left to right. -/
def unescape : Text → Text
  | [] => []
  | [c] => [c]
  | c :: d :: rest =>
      if c = '\x5c' ∧ isProtected d then d :: unescape rest else c :: unescape (d :: rest)

/-- What a line between quotes stands for: only double quotes know escapes. -/
def unquote : Quote → Text → Text
  | .double, t => unescape t
  | .single, t => t

end Block

end ShellDocs
