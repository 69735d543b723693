import ShellDocs.Text.Quoted

/-!
# Faults in a configuration file

A text that is not TOML is refused with a reason and the text that was left to read there. The
message names the line and the column of that place, counted from one.
-/

namespace ShellDocs.Toml

/-- Why a text is not TOML. -/
inductive Reason where
  | statement
  | statementEnd
  | keyStart
  | equalsSign
  | value
  | date
  | tableEnd
  | tableArrayEnd
  | openArray
  | openInlineTable
  | duplicateKey (key : Text)
  | declaredTwice (key : List Text)
  | redefined (key : List Text)
  | immutable (key : List Text)
  | overwritten
  | openString
  | expected (t : Text)
  | illegalChar (c : Char)
  | invalidChar (c : Char)
  | strayBackslash
  | hexDigits
  | notScalar
  /-- A decimal integer has more digits than are read. -/
  | tooManyDigits
  /-- Values are nested, or keys are dotted, deeper than is read. -/
  | tooDeep
  deriving DecidableEq, Repr

/-- A dotted key as a tuple of its parts. -/
def keyTuple (key : List Text) : Text :=
  match key with
  | [part] => ("(" : Text) ++ Text.quoted part ++ ",)"
  | parts => ("(" : Text) ++ Text.join ", " (parts.map Text.quoted) ++ ")"

/-- The reason in words. -/
def Reason.message : Reason → Text
  | .statement => "Invalid statement"
  | .statementEnd => "Expected newline or end of document after a statement"
  | .keyStart => "Invalid initial character for a key part"
  | .equalsSign => "Expected '=' after a key in a key/value pair"
  | .value => "Invalid value"
  | .date => "Invalid date or datetime"
  | .tableEnd => "Expected ']' at the end of a table declaration"
  | .tableArrayEnd => "Expected ']]' at the end of an array declaration"
  | .openArray => "Unclosed array"
  | .openInlineTable => "Unclosed inline table"
  | .duplicateKey key => ("Duplicate inline table key " : Text) ++ Text.quoted key
  | .declaredTwice key => ("Cannot declare " : Text) ++ keyTuple key ++ " twice"
  | .redefined key => ("Cannot redefine namespace " : Text) ++ keyTuple key
  | .immutable key => ("Cannot mutate immutable namespace " : Text) ++ keyTuple key
  | .overwritten => "Cannot overwrite a value"
  | .openString => "Unterminated string"
  | .expected t => ("Expected " : Text) ++ Text.quoted t
  | .illegalChar c => ("Illegal character " : Text) ++ Text.quoted [c]
  | .invalidChar c => ("Found invalid character " : Text) ++ Text.quoted [c]
  | .strayBackslash => "Unescaped '\\' in a string"
  | .hexDigits => "Invalid hex value"
  | .notScalar => "Escaped character is not a Unicode scalar value"
  | .tooManyDigits => "Too many digits"
  | .tooDeep => "Too many levels"

/-- A reason with the text that was left to read. -/
structure Fault where
  reason : Reason
  rest : Text
  deriving DecidableEq, Repr

/-- The place where `rest` begins in a document. -/
def placeOf (document rest : Text) : Text :=
  if rest.isEmpty then "end of document"
  else
    let before := Text.consumed document rest
    let line := before.count '\n' + 1
    let column := (before.reverse.takeWhile (· != '\n')).length + 1
    ("line " : Text) ++ Text.ofNat line ++ ", column " ++ Text.ofNat column

/-- The fault in words, with its place in the document. -/
def Fault.message (document : Text) (f : Fault) : Text :=
  f.reason.message ++ " (at " ++ placeOf document f.rest ++ ")"

end ShellDocs.Toml
