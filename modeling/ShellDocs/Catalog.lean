import ShellDocs.Definition
import ShellDocs.Traced

/-!
# Catalogs of definitions

A text may hold several definitions. Each starts at a signature line and ends at a closing line,
both at the first column; what stands between two definitions is skipped. A catalog has one
definition for a name: a later one takes the place of an earlier one.
-/

namespace ShellDocs

/-- Definitions under their names, in the order in which the names first appeared. -/
structure Catalog where
  definitions : List Definition
  deriving DecidableEq, Repr

namespace Catalog

/-- The catalog of nothing. -/
def empty : Catalog := ⟨[]⟩

/-- The names in order. -/
def names (c : Catalog) : List Text := c.definitions.map (·.name)

/-- The definition under a name. -/
def find? (c : Catalog) (name : Text) : Option Definition :=
  c.definitions.find? (·.name == name)

/-- The catalog with a definition, in place of one with its name or at the end. -/
def insert (c : Catalog) (d : Definition) : Catalog :=
  if (c.find? d.name).isSome then
    ⟨c.definitions.map fun e => if e.name = d.name then d else e⟩
  else ⟨c.definitions ++ [d]⟩

/-- The characters of a name in a signature: all but white space, parentheses and the equals
sign. -/
def isNameChar (c : Char) : Bool := !(Text.isSpace c || c == '(' || c == ')' || c == '=')

/-- Whether a text is an empty pair of parentheses and at most one opening brace, with blanks
anywhere around them. -/
def isSignatureTail (t : Text) : Bool :=
  match Text.skipBlanks t with
  | '(' :: t =>
      match Text.skipBlanks t with
      | ')' :: t =>
          match Text.skipBlanks t with
          | '\x7b' :: t => (Text.skipBlanks t).isEmpty
          | t => t.isEmpty
      | _ => false
  | _ => false

/-- The name that a text starts with when it is a signature without keyword. -/
def bareSignature? (t : Text) : Option Text :=
  let name := t.takeWhile isNameChar
  if !name.isEmpty && isSignatureTail (t.dropWhile isNameChar) then some name else none

/-- What stands after the keyword and at least one blank. -/
def afterKeyword? (line : Text) : Option Text :=
  match Text.after? "function" line with
  | some (c :: rest) => if Text.isBlank c then some (Text.skipBlanks rest) else none
  | _ => none

/-- The name of the definition that a line starts. The keyword is itself the name when no other
follows it. -/
def signature? (line : Text) : Option Text :=
  match (afterKeyword? line).bind bareSignature? with
  | some name => some name
  | none => bareSignature? line

/-- The lines that a signature line stands for: an opening brace at its end is moved to a line
of its own, so that every body starts on the third line. -/
def openingLines (line : Text) : List Text :=
  let content := Text.stripEnd line
  if content.getLast? = some '\x7b' then [Text.stripEnd content.dropLast, ['\x7b']] else [line]

/-- The definition that a line starts, with that line only. -/
def opened? (line : Text) : Option Definition :=
  (signature? line).map fun name => ⟨name, openingLines line⟩

/-- The definitions in some lines, of which those before belong to the open definition, if there
is one, and the last definition if it is never closed. -/
def cut (current : Option Definition) : List Text → List Definition × Option Definition
  | [] => ([], current)
  | line :: rest =>
      match current with
      | none => cut (opened? line) rest
      | some d =>
          let d : Definition := ⟨d.name, d.lines ++ [line]⟩
          if Definition.isClosing line then
            let (closed, last) := cut none rest
            (d :: closed, last)
          else cut (some d) rest

/-- The catalog of a text. A definition that is never closed has all lines up to the end. -/
def ofText (t : Text) : Catalog :=
  let (closed, last) := cut none (Text.lines t)
  (closed ++ last.toList).foldl insert empty

/-- The name of the definition in a text that is never closed. -/
def unclosed? (t : Text) : Option Text := (cut none (Text.lines t)).2.map (·.name)

/-- The catalog of a text, with a remark on a definition that is never closed. -/
def read (t : Text) : Traced Catalog := do
  Traced.notes ((unclosed? t).toList.map .definitionOpen)
  pure (ofText t)

end Catalog

end ShellDocs
