/-!
# Text

Text is a list of characters, so that every recogniser of the library is a recursion on it.
This module holds the operations that do not depend on a character table: cutting at a
separator, joining, trimming by a predicate, and the two characters that a shell treats as
blanks.
-/

namespace ShellDocs

/-- Text is the list of its characters. -/
abbrev Text := List Char

/-- A string literal stands for the text of its characters. -/
instance : Coe String Text := ⟨String.toList⟩

namespace Text

/-- A blank is a space or a tab, the two characters that separate words inside a line. -/
def isBlank (c : Char) : Bool := c == ' ' || c == '\t'

/-- The text without its leading blanks. -/
def skipBlanks (t : Text) : Text := t.dropWhile isBlank

/-- The text without its longest tail of characters that satisfy `p`. -/
def dropTail (p : Char → Bool) (t : Text) : Text := (t.reverse.dropWhile p).reverse

/-- The text without its longest head and its longest tail of characters that satisfy `p`. -/
def trim (p : Char → Bool) (t : Text) : Text := dropTail p (t.dropWhile p)

/-- The text without its trailing blanks. -/
def dropTailBlanks (t : Text) : Text := dropTail isBlank t

/-- What follows `lead` in a text that begins with it. -/
def after? (lead t : Text) : Option Text := lead.isPrefixOf? t

/-- Whether the text ends in `tail`. -/
def endsIn (tail t : Text) : Bool := tail.isSuffixOf t

/-- The pieces between the separators; a text with no separator is its own only piece. -/
def fields (sep : Char) : Text → List Text
  | [] => [[]]
  | c :: cs =>
      if c = sep then [] :: fields sep cs
      else
        match fields sep cs with
        | [] => [[c]]
        | f :: fs => (c :: f) :: fs

/-- The pieces put together again with `sep` between them. -/
def join (sep : Text) : List Text → Text
  | [] => []
  | [t] => t
  | t :: u :: rest => t ++ sep ++ join sep (u :: rest)

/-- The lines of a text, cut at newlines only. -/
def splitNewlines (t : Text) : List Text := fields '\n' t

/-- Lines joined by newlines, without a final newline. -/
def joinNewlines (ls : List Text) : Text := join ['\n'] ls

/-- The content of a line that may carry one final newline, refused when a newline stands
anywhere else. -/
def lineContent? (t : Text) : Option Text :=
  let content := if t.getLast? = some '\n' then t.dropLast else t
  if content.contains '\n' then none else some content

/-- The part of `t` that was read when `rest` is what remains of it. -/
def consumed (t rest : Text) : Text := t.take (t.length - rest.length)

/-- A natural number in decimal digits. -/
def ofNat (n : Nat) : Text := Nat.toDigits 10 n

/-- An integer in decimal digits, with a minus sign when it is negative. -/
def ofInt : Int → Text
  | .ofNat n => ofNat n
  | .negSucc n => '-' :: ofNat (n + 1)

/-- The text with zeros in front until it has at least `width` characters. -/
def padZeros (width : Nat) (t : Text) : Text := List.replicate (width - t.length) '0' ++ t

/-- A number in lower-case hexadecimal of at least `width` digits. -/
def hex (width n : Nat) : Text := padZeros width (Nat.toDigits 16 n)

/-- Order by code points, the shorter text first when one begins with the other. -/
def le : Text → Text → Bool
  | [], _ => true
  | _ :: _, [] => false
  | a :: as, b :: bs => if a < b then true else if b < a then false else le as bs

/-- Texts in the order of their code points. -/
def sort (ts : List Text) : List Text := ts.mergeSort le

end Text

end ShellDocs
