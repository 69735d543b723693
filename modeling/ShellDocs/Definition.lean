import ShellDocs.Text.Space

/-!
# Function definitions

A definition is the text that a shell prints for one function, line by line: the signature, the
opening brace, the body and the closing brace. A printout that was cut short has no closing
brace, and then every line after the second belongs to the body.
-/

namespace ShellDocs

/-- A function's name and the lines of its definition. -/
structure Definition where
  name : Text
  lines : List Text
  deriving DecidableEq, Repr

namespace Definition

/-- Whether nothing is left of a line but its newline. -/
def isLineEnd (t : Text) : Bool := t.isEmpty || t == ['\n']

/-- A closing line: a brace at the first column, then blanks with at most one semicolon. -/
def isClosing : Text → Bool
  | '\x7d' :: rest =>
      match Text.skipBlanks rest with
      | ';' :: rest => isLineEnd (Text.skipBlanks rest)
      | rest => isLineEnd rest
  | _ => false

/-- The longest beginning without white space and parentheses. -/
def leadingName (t : Text) : Text :=
  t.takeWhile fun c => !(Text.isSpace c || c == '(' || c == ')')

/-- The name in a signature line, `name ()` or `function name`, empty when there is none. The
keyword is itself the name when none follows it. -/
def signatureName (line : Text) : Text :=
  let t := Text.stripStart line
  match Text.after? "function" t with
  | some rest =>
      let name := leadingName (Text.stripStart rest)
      if rest.head?.any Text.isSpace && !name.isEmpty then name else leadingName t
  | none => leadingName t

/-- The definition with the lines of a printout, under the given name or the one in its
signature. -/
def ofText (text : Text) (name : Option Text) : Definition :=
  let lines := Text.lines text
  ⟨name.getD ((lines.head?.map signatureName).getD []), lines⟩

/-- How many lines stand before the closing brace; the first two are never a closing brace. -/
def bodyEnd (d : Definition) : Nat :=
  if 2 < d.lines.length && d.lines.getLast?.any isClosing then d.lines.length - 1
  else d.lines.length

/-- The lines between the opening and the closing brace. -/
def body (d : Definition) : List Text := (d.lines.take d.bodyEnd).drop 2

end Definition

end ShellDocs
