import ShellDocs.Block.Basic
import ShellDocs.Definition

/-!
# The first line of a block

`Opening.of?` recognises the line that starts a block. The forms are tried in a fixed order: a
here-document, a quoted string after a colon, a quoted string after the render command, and plain
text. A line that announces a here-document without a readable marker is `malformed`, which is a
result of its own and not a failure to recognise the line.
-/

namespace ShellDocs.Block

/-- How a block starts. -/
inductive Opening where
  | hereDoc (marker : Text)
  | malformed
  /-- A quote with the text after it on the same line. -/
  | quoted (quote : Quote) (rest : Text)
  | plain (text : Text)
  deriving DecidableEq, Repr

/-- The line after its leading blanks and the optional opening parenthesis or `false &&`. -/
def skipLead (line : Text) : Text :=
  match Text.skipBlanks line with
  | '(' :: rest => Text.skipBlanks rest
  | 'f' :: 'a' :: 'l' :: 's' :: 'e' :: rest =>
      match Text.skipBlanks rest with
      | '&' :: '&' :: rest => Text.skipBlanks rest
      | _ => 'f' :: 'a' :: 'l' :: 's' :: 'e' :: rest
  | rest => rest

/-- What follows the colon of a documentation line and the blanks after it, of which there is at
least one. -/
def afterColon? (line : Text) : Option Text :=
  match skipLead line with
  | ':' :: c :: rest => if Text.isBlank c then some (Text.skipBlanks rest) else none
  | _ => none

/-- The characters of a here-document's marker. -/
def isMarkerChar (c : Char) : Bool := c.isAlphanum || c == '_'

/-- The marker that ends the line, if it is not empty. -/
def bareMarker? (t : Text) : Option Text :=
  let marker := t.takeWhile isMarkerChar
  let rest := t.dropWhile isMarkerChar
  if !marker.isEmpty && Definition.isLineEnd (Text.skipBlanks rest) then some marker else none

/-- The marker that ends the line with a quote before and the same quote after it. -/
def quotedMarker? (quote : Char) (t : Text) : Option Text :=
  let marker := t.takeWhile isMarkerChar
  match t.dropWhile isMarkerChar with
  | c :: rest =>
      if c = quote ∧ !marker.isEmpty ∧ Definition.isLineEnd (Text.skipBlanks rest) then
        some marker
      else none
  | [] => none

/-- The marker after `<<`: a dash and one blank may stand before it, and quotes around it. -/
def marker? (t : Text) : Option Text :=
  let t := match t with
    | '-' :: rest => rest
    | _ => t
  let t := match t with
    | c :: rest => if Text.isBlank c then rest else t
    | [] => t
  match t with
  | c :: rest => if (Quote.ofChar? c).isSome then quotedMarker? c rest else bareMarker? t
  | [] => none

/-- What follows `<<` when a here-document is announced; a third `<` makes it a here-string. -/
def hereDocRest? : Text → Option Text
  | '<' :: '<' :: rest => if rest.head? = some '<' then none else some rest
  | _ => none

/-- A quote at the start of the text, with the rest of its line. -/
def quotedRest? : Text → Option (Quote × Text)
  | c :: rest => do
      let quote ← Quote.ofChar? c
      let content ← Text.lineContent? rest
      pure (quote, content)
  | [] => none

/-- The text after the flags of a render command: each flag is a dash with letters and digits,
and blanks stand before each flag and before what is returned. There are at most `fuel` flags. -/
def afterFlags? : Nat → Text → Option Text
  | 0, _ => none
  | fuel + 1, t =>
      match t with
      | c :: _ =>
          if !Text.isBlank c then none
          else
            match Text.skipBlanks t with
            | '-' :: rest =>
                if (rest.takeWhile Char.isAlphanum).isEmpty then none
                else afterFlags? fuel (rest.dropWhile Char.isAlphanum)
            | rest => some rest
      | [] => none

/-- The quoted string that a render command at the start of the text is given. -/
def renderRest? (renderer t : Text) : Option (Quote × Text) := do
  let rest ← Text.after? renderer t
  let rest ← afterFlags? (rest.length + 1) rest
  quotedRest? rest

/-- The quoted string of a render command that may be indented. The name is looked for at the
start of the line and after each leading blank. -/
def renderOpening? (renderer : Text) : Text → Option (Quote × Text)
  | [] => renderRest? renderer []
  | c :: rest =>
      match renderRest? renderer (c :: rest) with
      | some found => some found
      | none => if Text.isBlank c then renderOpening? renderer rest else none

/-- The text of a plain line, from the first character after the colon's blanks: it does not
start with a quote or white space and ends in a semicolon, which the last line of a body may
lack. -/
def plainText? (last : Bool) (t : Text) : Option Text := do
  let c ← t.head?
  if (Quote.ofChar? c).isSome || Text.isSpace c then none
  else
    let content := Text.dropTailBlanks (← Text.lineContent? t)
    let text := content.dropLast
    if content.getLast? = some ';' ∧ !text.isEmpty then some text
    else if last then some content
    else none

/-- How the line starts a block, if it does; `last` tells that it is the last line of a body. -/
def Opening.of? (renderer : Text) (last : Bool) (line : Text) : Option Opening :=
  let afterColon := afterColon? line
  match afterColon.bind hereDocRest? with
  | some rest =>
      match marker? rest with
      | some marker => some (.hereDoc marker)
      | none => some .malformed
  | none =>
      match afterColon.bind quotedRest? <|> renderOpening? renderer line with
      | some (quote, rest) => some (.quoted quote rest)
      | none => (afterColon.bind (plainText? last)).map .plain

/-- Whether a line is a guard test, which may stand before the documentation. -/
def isGuard (line : Text) : Bool :=
  match Text.skipBlanks line with
  | '[' :: c :: _ => c == '[' || Text.isBlank c
  | '(' :: '(' :: _ => true
  | 't' :: 'e' :: 's' :: 't' :: c :: _ => Text.isBlank c
  | 'i' :: 'f' :: c :: _ => Text.isBlank c
  | _ => false

end ShellDocs.Block
