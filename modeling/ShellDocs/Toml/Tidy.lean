import ShellDocs.Toml.Document

/-!
# Kept values

A value that an edit leaves alone is written back as it was, but for the white space around it. No
white space is kept between a date and what follows it inside another value, and in an inline table
a comma stands directly after the value before it. `Line.tidy` is an entry as it is written back.
-/

namespace ShellDocs.Toml

/-- Whether a value is a date, alone or with a time. -/
def Value.isDated : Value → Bool
  | .date _ => true
  | .moment .. => true
  | _ => false

/-- The blanks, newlines and comments before the next token, and the text from there on. -/
def gapOf (t : Text) : Text × Text :=
  match skipGaps t.length t with
  | .ok rest => (Text.consumed t rest, rest)
  | .error _ => (t, [])

/-- A text with another one in front of what is written. -/
def afterText (t : Text) (written : Text × Text) : Text × Text := (t ++ written.1, written.2)

/-- A value that is neither a list nor a table, as it is written back, and the text after it. -/
def tidyScalar (t : Text) : Text × Text :=
  match readValue .tolerant t with
  | .ok (v, rest) =>
      let whole := Text.consumed t rest
      (if v.isDated then Text.stripEnd whole else whole, rest)
  | .error _ => (t, [])

/-- The text after a key and its equals sign. -/
def afterKey (t : Text) : Text :=
  match key .tolerant t with
  | .ok (_, rest) => (equalsSign rest).toOption.getD []
  | .error _ => []

mutual

/-- A value as it is written back, and the text after it, in at most `fuel` steps. -/
def tidyValue : Nat → Text → Text × Text
  | 0, t => (t, [])
  | fuel + 1, t =>
      match t with
      | '[' :: rest => afterText ['['] (tidyItems fuel rest)
      | '\x7b' :: rest => afterText ['\x7b'] (tidyMembers fuel rest)
      | _ => tidyScalar t

/-- The items of a list up to its closing bracket. -/
def tidyItems : Nat → Text → Text × Text
  | 0, t => (t, [])
  | fuel + 1, t =>
      let (gap, t) := gapOf t
      match t with
      | [] => (gap, [])
      | ']' :: rest => (gap ++ [']'], rest)
      | ',' :: rest => afterText (gap ++ [',']) (tidyItems fuel rest)
      | _ =>
          let (written, rest) := tidyValue fuel t
          afterText (gap ++ written) (tidyItems fuel rest)

/-- The entries of an inline table up to its closing brace. A comma comes before the gap that it
follows, unless it is the last one and no entry follows. -/
def tidyMembers : Nat → Text → Text × Text
  | 0, t => (t, [])
  | fuel + 1, t =>
      let (gap, t) := gapOf t
      match t with
      | [] => (gap, [])
      | '\x7d' :: rest => (gap ++ ['\x7d'], rest)
      | _ =>
          let atValue := afterKey t
          let (written, rest) := tidyValue fuel atValue
          let line := gap ++ Text.consumed t atValue ++ written
          let (space, rest) := gapOf rest
          match rest with
          | ',' :: rest =>
              let isLast := (gapOf rest).2.head? == some '\x7d'
              let comma := if isLast then space ++ [','] else ',' :: space
              afterText (line ++ comma) (tidyMembers fuel rest)
          | _ => afterText (line ++ space) (tidyMembers fuel rest)

end

/-- An entry as it is written back: the white space that was read with a date takes the place of
the blanks after it. -/
def Line.tidy (l : Line) : Line :=
  let written := (tidyValue (2 * l.valueText.length + 2) l.valueText).1
  let space := if l.value.isDated then l.valueText.drop written.length else []
  let trail := if space.isEmpty then l.trail else space ++ Text.skipBlanks l.trail
  { l with valueText := written, trail := trail }

end ShellDocs.Toml
