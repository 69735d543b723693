import ShellDocs.Text.Space

/-!
# Docstrings

The documentation of one function: a list of lines. No lines at all means that nothing was
found, while an explicitly blank documentation is one empty line.
-/

namespace ShellDocs

/-- Documentation as a list of lines. -/
structure Docstring where
  lines : List Text
  deriving DecidableEq, Repr

namespace Docstring

/-- The documentation that holds nothing. -/
def empty : Docstring := ⟨[]⟩

/-- The lines joined by newlines. -/
def text (d : Docstring) : Text := Text.joinNewlines d.lines

/-- Whether there is any line. -/
def found (d : Docstring) : Bool := !d.lines.isEmpty

/-- Whether there is exactly one line. -/
def isSingle (d : Docstring) : Bool := d.lines.length == 1

/-- The documentation with the lines of a text; an empty text holds none. -/
def ofText (t : Text) : Docstring :=
  if t.isEmpty then empty else ⟨Text.splitNewlines t⟩

/-- The documentation that a whole file holds: its final newlines are not part of it. -/
def ofFile (t : Text) : Docstring := ofText (Text.dropTail (· == '\n') t)

end Docstring

end ShellDocs
