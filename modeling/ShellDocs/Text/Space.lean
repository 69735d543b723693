import ShellDocs.Text.Basic

/-!
# White space and line breaks

White space is the Unicode property together with the four ASCII separators. Two kinds of line
ends are used: `lines` cuts at every character that ends a line in Unicode and drops the break,
and `uniformNewlines` only turns carriage returns into newlines, as a text file is read.
-/

namespace ShellDocs.Text

/-- White space: tab to carriage return, the four separators U+001C to U+001F, and the
characters with the Unicode property. -/
def isSpace (c : Char) : Bool :=
  let n := c.toNat
  (0x09 ≤ n && n ≤ 0x0D) || (0x1C ≤ n && n ≤ 0x20) || n == 0x85 || n == 0xA0 || n == 0x1680 ||
    (0x2000 ≤ n && n ≤ 0x200A) || n == 0x2028 || n == 0x2029 || n == 0x202F || n == 0x205F ||
    n == 0x3000

/-- The text without leading white space. -/
def stripStart (t : Text) : Text := t.dropWhile isSpace

/-- The text without trailing white space. -/
def stripEnd (t : Text) : Text := dropTail isSpace t

/-- The text without leading and trailing white space. -/
def strip (t : Text) : Text := trim isSpace t

/-- Whether the text holds nothing but white space. -/
def isVoid (t : Text) : Bool := t.all isSpace

/-- The characters that end a line. -/
def isLineBreak (c : Char) : Bool :=
  let n := c.toNat
  (0x0A ≤ n && n ≤ 0x0D) || (0x1C ≤ n && n ≤ 0x1E) || n == 0x85 || n == 0x2028 || n == 0x2029

/-- The lines of a text without their breaks. A carriage return and the newline after it are
one break, and a final break does not start another line. -/
def lines : Text → List Text
  | [] => []
  | '\r' :: '\n' :: cs => [] :: lines cs
  | c :: cs =>
      if isLineBreak c then [] :: lines cs
      else
        match lines cs with
        | [] => [[c]]
        | l :: ls => (c :: l) :: ls

/-- The text with every carriage return, alone or before a newline, turned into a newline. -/
def uniformNewlines : Text → Text
  | [] => []
  | '\r' :: '\n' :: cs => '\n' :: uniformNewlines cs
  | c :: cs => (if c = '\r' then '\n' else c) :: uniformNewlines cs

/-- The text with a carriage return before a newline dropped, and every other one kept. -/
def joinCarriageReturns : Text → Text
  | [] => []
  | '\r' :: '\n' :: cs => '\n' :: joinCarriageReturns cs
  | c :: cs => c :: joinCarriageReturns cs

end ShellDocs.Text
