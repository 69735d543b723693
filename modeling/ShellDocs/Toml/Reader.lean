import ShellDocs.Toml.Outline
import ShellDocs.Toml.Tolerant

/-!
# Keys and values

The readers of dotted keys and of values, lists and inline tables included. Between the items of
a list and of an inline table blanks, newlines and comments may stand, and a comma may follow the
last item. A text is read exactly, when its values are to be used, or tolerantly, when it is only
to be edited.
-/

namespace ShellDocs.Toml

/-- How a text is read: exactly and up to some limits, or tolerantly. -/
inductive Reading where
  | exact
  | tolerant
  deriving DecidableEq, Repr

/-- The reader of numbers, dates and times. -/
def Reading.scalar : Reading → Text → Except Fault (Value × Text)
  | .exact => Toml.scalar
  | .tolerant => tolerantScalar

/-- Whether values are nested deeper than is read. -/
def Reading.isTooDeep (r : Reading) (depth : Nat) : Bool := r = .exact && 400 < depth

/-- Whether a dotted key has more parts than are read. -/
def Reading.isTooLong (r : Reading) (parts : Nat) : Bool := r = .exact && 1000 < parts

/-- The characters of a key without quotes. -/
def isBareKeyChar (c : Char) : Bool := c.isAlphanum || c == '-' || c == '_'

/-- The characters that a key can start with. -/
def isKeyStart (c : Char) : Bool := isBareKeyChar c || c == '\x22' || c == '\x27'

/-- The text from the end of a comment on; a text that starts with none is left alone. -/
def skipComment : Text → Except Fault Text
  | '#' :: rest =>
      match rest.dropWhile (!isIllegal ·) with
      | [] => .ok []
      | c :: after => if c = '\n' then .ok (c :: after) else .error ⟨.invalidChar c, c :: after⟩
  | t => .ok t

/-- The text after blanks, newlines and at most `fuel` comments. -/
def skipGaps : Nat → Text → Except Fault Text
  | 0, t => .ok (t.dropWhile isGap)
  | fuel + 1, t =>
      match t.dropWhile isGap with
      | '#' :: rest => do
          let after ← skipComment ('#' :: rest)
          skipGaps fuel after
      | rest => .ok rest

/-- A key without quotes. Read tolerantly, it may have tabs inside. -/
def bareKey (r : Reading) (t : Text) : Except Fault (Text × Text) :=
  match r with
  | .exact => .ok (t.takeWhile isBareKeyChar, t.dropWhile isBareKeyChar)
  | .tolerant =>
      let part := Text.dropTailBlanks (t.takeWhile fun c => isBareKeyChar c || Text.isBlank c)
      if part.contains ' ' then .error ⟨.keyStart, t⟩ else .ok (part, t.drop part.length)

/-- One part of a dotted key. -/
def keyPart (r : Reading) (t : Text) : Except Fault (Text × Text) :=
  match t with
  | [] => .error ⟨.keyStart, []⟩
  | c :: rest =>
      if isBareKeyChar c then bareKey r t
      else if c = '\x27' then literalString rest
      else if c = '\x22' then basicString false (rest.length + 1) rest
      else .error ⟨.keyStart, t⟩

/-- The parts of a key of at most `fuel` parts, and the text after it and its blanks. -/
def keyParts (r : Reading) : Nat → Text → Except Fault (List Text × Text)
  | 0, t => .error ⟨.keyStart, t⟩
  | fuel + 1, t => do
      let (part, rest) ← keyPart r t
      match Text.skipBlanks rest with
      | '.' :: rest => do
          let (parts, rest) ← keyParts r fuel (Text.skipBlanks rest)
          pure (part :: parts, rest)
      | rest => pure ([part], rest)

/-- A dotted key. -/
def key (r : Reading) (t : Text) : Except Fault (List Text × Text) := do
  let (parts, rest) ← keyParts r (t.length + 1) t
  if r.isTooLong parts.length then .error ⟨.tooDeep, t⟩ else pure (parts, rest)

/-- A string in three quotes or one, if one starts here. -/
def string? : Text → Option (Except Fault (Text × Text))
  | '\x22' :: '\x22' :: '\x22' :: rest =>
      let rest := skipNewline rest
      some (extraQuotes '\x22' (basicString true (rest.length + 1) rest))
  | '\x22' :: rest => some (basicString false (rest.length + 1) rest)
  | '\x27' :: '\x27' :: '\x27' :: rest =>
      some (extraQuotes '\x27' (literalText (skipNewline rest)))
  | '\x27' :: rest => some (literalString rest)
  | _ => none

/-- The equals sign after a key and the blanks after it. -/
def equalsSign : Text → Except Fault Text
  | '=' :: rest => .ok (Text.skipBlanks rest)
  | t => .error ⟨.equalsSign, t⟩

mutual

/-- A value that stands `depth` levels inside others, read in at most `fuel` steps. -/
def value (r : Reading) : Nat → Nat → Text → Except Fault (Value × Text)
  | 0, _, t => .error ⟨.value, t⟩
  | fuel + 1, depth, t =>
      if r.isTooDeep depth then .error ⟨.tooDeep, t⟩
      else
        match string? t with
        | some read => read.map fun (s, rest) => (.text s, rest)
        | none =>
            match t with
            | 't' :: 'r' :: 'u' :: 'e' :: rest => .ok (.bool true, rest)
            | 'f' :: 'a' :: 'l' :: 's' :: 'e' :: rest => .ok (.bool false, rest)
            | '[' :: rest => do
                let rest ← skipGaps rest.length rest
                match rest with
                | ']' :: rest => pure (.list [], rest)
                | _ => do
                    let (items, rest) ← items r fuel (depth + 1) rest
                    pure (.list items, rest)
            | '\x7b' :: rest => do
                let rest ← skipGaps rest.length rest
                match rest with
                | '\x7d' :: rest => pure (.table [], rest)
                | _ => do
                    let (entries, rest) ← members r fuel (depth + 1) [] rest
                    pure (.table (finishEntries entries), rest)
            | _ => r.scalar t

/-- The items of a list up to its closing bracket, at most `fuel` of them. -/
def items (r : Reading) : Nat → Nat → Text → Except Fault (List Value × Text)
  | 0, _, t => .error ⟨.openArray, t⟩
  | fuel + 1, depth, t => do
      let (v, rest) ← value r fuel depth t
      let rest ← skipGaps rest.length rest
      match rest with
      | ']' :: rest => pure ([v], rest)
      | ',' :: rest => do
          let rest ← skipGaps rest.length rest
          match rest with
          | ']' :: rest => pure ([v], rest)
          | _ => do
              let (vs, rest) ← items r fuel depth rest
              pure (v :: vs, rest)
      | _ => .error ⟨.openArray, rest⟩

/-- The entries of an inline table up to its closing brace, at most `fuel` of them. -/
def members (r : Reading) : Nat → Nat → Outline → Text → Except Fault (Outline × Text)
  | 0, _, _, t => .error ⟨.openInlineTable, t⟩
  | fuel + 1, depth, o, t => do
      let (path, rest) ← key r t
      let rest ← equalsSign rest
      let (v, rest) ← value r fuel depth rest
      let o ← (o.insertInline path v).mapError (⟨·, rest⟩)
      let rest ← skipGaps rest.length rest
      match rest with
      | '\x7d' :: rest => pure (o, rest)
      | ',' :: rest => do
          let rest ← skipGaps rest.length rest
          match rest with
          | '\x7d' :: rest => pure (o, rest)
          | _ => members r fuel depth o rest
      | _ => .error ⟨.openInlineTable, rest⟩

end

/-- A value; its length bounds how deep it is nested and how many items it has. -/
def readValue (r : Reading) (t : Text) : Except Fault (Value × Text) :=
  value r (2 * t.length + 2) 0 t

end ShellDocs.Toml
