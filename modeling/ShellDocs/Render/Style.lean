import ShellDocs.Text.Space

/-!
# Terminal styles

Styles are escape codes around a text. One line gets up to three, one after the other: the
heading that it starts with in bold, its links dim, and its inline code in italics without the
backticks. `stripStyles` removes every escape code, for output that is not shown on a terminal.
-/

namespace ShellDocs.Render

/-- The styles that are used. -/
inductive Style where
  | bold
  | dim
  | italic
  | underline
  deriving DecidableEq, Repr

/-- The number of a style in its escape code. -/
def Style.code : Style → Char
  | .bold => '1'
  | .dim => '2'
  | .italic => '3'
  | .underline => '4'

/-- The escape code that switches a style on. -/
def Style.start (s : Style) : Text := ['\x1b', '[', s.code, 'm']

/-- The escape code that ends all styles. -/
def reset : Text := ['\x1b', '[', '0', 'm']

/-- The text in the given styles. -/
def styled (styles : List Style) (t : Text) : Text := styles.flatMap Style.start ++ t ++ reset

/-- The characters between the bracket and the final letter of an escape code. -/
def isCodeParameter (c : Char) : Bool := c == ';' || c == '?' || c.isDigit

/-- The length of the escape code at the start of a text. -/
def codeLength? : Text → Option Nat
  | '\x1b' :: '[' :: rest =>
      let parameters := rest.takeWhile isCodeParameter
      match rest.dropWhile isCodeParameter with
      | c :: _ => if c.isAlpha then some (parameters.length + 3) else none
      | [] => none
  | _ => none

/-- The text without its escape codes; `skip` characters of a code are still to be dropped. -/
def stripFrom (skip : Nat) : Text → Text
  | [] => []
  | c :: rest =>
      match skip with
      | skip + 1 => stripFrom skip rest
      | 0 =>
          match codeLength? (c :: rest) with
          | some n => stripFrom (n - 1) rest
          | none => c :: stripFrom 0 rest

/-- The text without its escape codes. -/
def stripStyles (t : Text) : Text := stripFrom 0 t

/-- The heading that a line starts with: the first of the words that it starts with, and then
everything up to a colon. Without any words every line counts as one. -/
def heading? (words : List Text) (line : Text) : Option (Text × Text) := do
  let word ← (if words.isEmpty then [[]] else words).find? (·.isPrefixOf line)
  let rest := line.drop word.length
  pure (word ++ rest.takeWhile (· != ':'), rest.dropWhile (· != ':'))

/-- The line with its heading in bold. -/
def styleHeading (words : List Text) (line : Text) : Text :=
  match heading? words line with
  | some (heading, rest) => styled [.bold] heading ++ rest
  | none => line

/-- The characters of a link after its scheme. -/
def isLinkChar (c : Char) : Bool :=
  c.isAlphanum || c == '@' || c == '/' || c == '.' || c == '?' || c == '&' || c == '=' ||
    c == '-'

/-- The link at the start of a text: a scheme of letters and digits, `://`, and at least one more
character. -/
def link? (t : Text) : Option Text :=
  let scheme := t.takeWhile Char.isAlphanum
  match t.dropWhile Char.isAlphanum with
  | ':' :: '/' :: '/' :: rest =>
      let tail := rest.takeWhile isLinkChar
      if scheme.isEmpty || tail.isEmpty then none
      else some (scheme ++ ':' :: '/' :: '/' :: tail)
  | _ => none

/-- The text with its links dim; `skip` characters of a link are written already. -/
def styleLinksFrom (skip : Nat) : Text → Text
  | [] => []
  | c :: rest =>
      match skip with
      | skip + 1 => styleLinksFrom skip rest
      | 0 =>
          match link? (c :: rest) with
          | some link => styled [.dim] link ++ styleLinksFrom (link.length - 1) rest
          | none => c :: styleLinksFrom 0 rest

/-- The text with its links dim. -/
def styleLinks (t : Text) : Text := styleLinksFrom 0 t

/-- The code at the start of a text up to a closing backtick, if it is not empty. -/
def codeBefore? (t : Text) : Option Text :=
  let code := t.takeWhile (· != '\x60')
  match t.dropWhile (· != '\x60') with
  | _ :: _ => if code.isEmpty then none else some code
  | [] => none

/-- The code between backticks at the start of a text. -/
def inlineCode? : Text → Option Text
  | '\x60' :: rest => codeBefore? rest
  | _ => none

/-- The text with its inline code in italics. Code begins at the start of the line or after a
character other than a backtick; `skip` characters are written already. -/
def styleCodeFrom (skip : Nat) : Text → Text
  | [] => []
  | c :: rest =>
      match skip with
      | skip + 1 => styleCodeFrom skip rest
      | 0 =>
          if c = '\x60' then c :: styleCodeFrom 0 rest
          else
            match inlineCode? rest with
            | some code => c :: styled [.italic] code ++ styleCodeFrom (code.length + 2) rest
            | none => c :: styleCodeFrom 0 rest

/-- The line with its inline code in italics and without the backticks around it. -/
def styleCode (line : Text) : Text :=
  match inlineCode? line with
  | some code => styled [.italic] code ++ styleCodeFrom (code.length + 2) line
  | none => styleCodeFrom 0 line

/-- The line with its heading, links and code styled, in that order. -/
def styleLine (words : List Text) (line : Text) : Text :=
  styleCode (styleLinks (styleHeading words line))

end ShellDocs.Render
