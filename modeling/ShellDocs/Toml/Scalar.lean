import ShellDocs.Toml.Fault
import ShellDocs.Toml.Value

/-!
# Strings, numbers, dates and times

The readers of single values. Each takes the text that is left and returns the value with the
text after it. Numbers, dates and times never fail: they are recognised or not, and the value
reader goes on to the next form.
-/

namespace ShellDocs.Toml

/-- A control character that may not stand in a string or a comment. -/
def isIllegal (c : Char) : Bool := (c.toNat < 0x20 && c != '\t') || c.toNat == 0x7F

/-- A blank or a newline. -/
def isGap (c : Char) : Bool := Text.isBlank c || c == '\n'

/-- A hexadecimal digit. -/
def isHexDigit (c : Char) : Bool :=
  c.isDigit || ('a' ≤ c && c ≤ 'f') || ('A' ≤ c && c ≤ 'F')

/-- The value of a digit in any base up to sixteen. -/
def digitValue (c : Char) : Nat :=
  if c.isDigit then c.toNat - '0'.toNat
  else if 'a' ≤ c ∧ c ≤ 'f' then c.toNat - 'a'.toNat + 10
  else c.toNat - 'A'.toNat + 10

/-- The number that digits stand for. -/
def numberOf (base : Nat) (digits : Text) : Nat :=
  digits.foldl (fun n c => n * base + digitValue c) 0

/-- The character with the number that the next `count` hexadecimal digits give. -/
def hexChar (count : Nat) (t : Text) : Except Fault (Text × Text) :=
  let digits := t.take count
  if digits.length ≠ count ∨ !digits.all isHexDigit then .error ⟨.hexDigits, t⟩
  else
    let n := numberOf 16 digits
    let rest := t.drop count
    if n.isValidChar then .ok ([Char.ofNat n], rest) else .error ⟨.notScalar, rest⟩

/-- The characters that a backslash and one letter stand for. -/
def shortEscape? : Char → Option Char
  | 'b' => some '\x08'
  | 't' => some '\t'
  | 'n' => some '\n'
  | 'f' => some '\x0c'
  | 'r' => some '\r'
  | 'e' => some '\x1b'
  | '\x22' => some '\x22'
  | '\x5c' => some '\x5c'
  | _ => none

/-- What a backslash stands for, from the text after it. In a string of several lines a
backslash at the end of a line joins it to the next text. -/
def escape (multiline : Bool) : Text → Except Fault (Text × Text)
  | [] => .error ⟨.strayBackslash, []⟩
  | c :: rest =>
      if multiline ∧ c = '\n' then .ok ([], rest.dropWhile isGap)
      else if multiline ∧ Text.isBlank c then
        match Text.skipBlanks rest with
        | [] => .ok ([], [])
        | '\n' :: rest => .ok ([], rest.dropWhile isGap)
        | rest => .error ⟨.strayBackslash, rest⟩
      else if c = 'x' then hexChar 2 rest
      else if c = 'u' then hexChar 4 rest
      else if c = 'U' then hexChar 8 rest
      else
        match shortEscape? c with
        | some d => .ok ([d], rest)
        | none => .error ⟨.strayBackslash, rest⟩

/-- The rest of a string in double quotes, of at most `fuel` characters. -/
def basicString (multiline : Bool) : Nat → Text → Except Fault (Text × Text)
  | 0, t => .error ⟨.openString, t⟩
  | _ + 1, [] => .error ⟨.openString, []⟩
  | fuel + 1, c :: rest =>
      let continued (start : Text) (tail : Except Fault (Text × Text)) :
          Except Fault (Text × Text) :=
        tail.map fun (t, after) => (start ++ t, after)
      if c = '\x22' then
        if !multiline then .ok ([], rest)
        else
          match rest with
          | '\x22' :: '\x22' :: after => .ok ([], after)
          | _ => continued [c] (basicString multiline fuel rest)
      else if c = '\x5c' then
        match escape multiline rest with
        | .ok (t, after) => continued t (basicString multiline fuel after)
        | .error fault => .error fault
      else if isIllegal c && !(multiline && c == '\n') then .error ⟨.illegalChar c, c :: rest⟩
      else continued [c] (basicString multiline fuel rest)

/-- The rest of a string in single quotes. -/
def literalString (t : Text) : Except Fault (Text × Text) :=
  let body := t.takeWhile (· != '\x27')
  match t.dropWhile (· != '\x27') with
  | [] => .error ⟨.expected ['\x27'], []⟩
  | _ :: rest =>
      match body.find? isIllegal with
      | some c => .error ⟨.invalidChar c, t.dropWhile (!isIllegal ·)⟩
      | none => .ok (body, rest)

/-- The text up to three single quotes, and the text after them. -/
def untilTriple? : Text → Option (Text × Text)
  | [] => none
  | '\x27' :: '\x27' :: '\x27' :: rest => some ([], rest)
  | c :: rest => (untilTriple? rest).map fun (t, after) => (c :: t, after)

/-- The rest of a string in three single quotes. -/
def literalText (t : Text) : Except Fault (Text × Text) :=
  match untilTriple? t with
  | none => .error ⟨.expected ['\x27', '\x27', '\x27'], []⟩
  | some (body, rest) =>
      let bad (c : Char) : Bool := isIllegal c && c != '\n'
      match body.find? bad with
      | some c => .error ⟨.invalidChar c, t.dropWhile (!bad ·)⟩
      | none => .ok (body, rest)

/-- Up to two quotes right after the three that end a string belong to the string. -/
def extraQuotes (quote : Char) : Except Fault (Text × Text) → Except Fault (Text × Text)
  | .error fault => .error fault
  | .ok (body, rest) =>
      match rest with
      | a :: b :: after =>
          if a = quote ∧ b = quote then .ok (body ++ [a, b], after)
          else if a = quote then .ok (body ++ [a], b :: after)
          else .ok (body, rest)
      | [a] => if a = quote then .ok (body ++ [a], []) else .ok (body, rest)
      | [] => .ok (body, [])

/-- A newline right after the opening quotes is not part of the string. -/
def skipNewline : Text → Text
  | '\n' :: rest => rest
  | t => t

/-- Digits with single underscores between them, and the text after them. -/
def digitRun (isDigit : Char → Bool) : Text → Text × Text
  | [] => ([], [])
  | [c] => if isDigit c then ([c], []) else ([], [c])
  | c :: d :: rest =>
      if isDigit c then
        if d = '_' ∧ rest.head?.any isDigit then
          let (digits, after) := digitRun isDigit rest
          (c :: digits, after)
        else
          let (digits, after) := digitRun isDigit (d :: rest)
          (c :: digits, after)
      else ([], c :: d :: rest)

/-- A run that has at least one digit. -/
def digitRun? (isDigit : Char → Bool) (t : Text) : Option (Text × Text) :=
  let run := digitRun isDigit t
  if run.1.isEmpty then none else some run

/-- A number with its base in front. -/
def basedNumber? : Text → Option (Value × Text)
  | '0' :: mark :: rest =>
      let read (base : Nat) (isDigit : Char → Bool) : Option (Value × Text) :=
        (digitRun? isDigit rest).map fun (digits, after) => (.int (numberOf base digits), after)
      if mark = 'x' then read 16 isHexDigit
      else if mark = 'o' then read 8 fun c => '0' ≤ c && c ≤ '7'
      else if mark = 'b' then read 2 fun c => c == '0' || c == '1'
      else none
  | _ => none

/-- An optional sign: whether it is a minus, and the text after it. -/
def signOf : Text → Bool × Text
  | '+' :: rest => (false, rest)
  | '-' :: rest => (true, rest)
  | t => (false, t)

/-- The digits of a whole number: a zero, or a run that does not start with one. -/
def wholeDigits? : Text → Option (Text × Text)
  | '0' :: rest => some (['0'], rest)
  | t => digitRun? Char.isDigit t

/-- The digits after a point. -/
def fraction? : Text → Option (Text × Text)
  | '.' :: rest => digitRun? Char.isDigit rest
  | _ => none

/-- The exponent of a number. -/
def exponent? : Text → Option (Int × Text)
  | c :: rest =>
      if c = 'e' ∨ c = 'E' then
        let (negative, rest) := signOf rest
        (digitRun? Char.isDigit rest).map fun (digits, after) =>
          let n : Int := numberOf 10 digits
          (if negative then -n else n, after)
      else none
  | [] => none

/-- A decimal number; a point or an exponent makes it a floating-point number. -/
def decimalNumber? (t : Text) : Option (Value × Text) := do
  let (negative, rest) := signOf t
  let (whole, rest) ← wholeDigits? rest
  let fraction := fraction? rest
  let (places, rest) := fraction.getD ([], rest)
  let exponent := exponent? rest
  let (power, rest) := exponent.getD (0, rest)
  if fraction.isNone && exponent.isNone then
    let n : Int := numberOf 10 whole
    pure (.int (if negative then -n else n), rest)
  else
    let digits := numberOf 10 (whole ++ places)
    pure (.float (Binary64.ofDecimal negative digits (power - places.length)), rest)

/-- The names of the values that no digits write. -/
def namedFloat? (t : Text) : Option (Value × Text) :=
  let (negative, rest) := signOf t
  match rest with
  | 'i' :: 'n' :: 'f' :: after => some (.float (.infinite negative), after)
  | 'n' :: 'a' :: 'n' :: after => some (.float .notANumber, after)
  | _ => none

/-- The number that `count` digits give, if it lies between the bounds. -/
def fixedNumber? (count low high : Nat) (t : Text) : Option (Nat × Text) :=
  let digits := t.take count
  let n := numberOf 10 digits
  if digits.length = count && digits.all Char.isDigit && low ≤ n && n ≤ high then
    some (n, t.drop count)
  else none

/-- What follows a given character. -/
def afterChar? (c : Char) : Text → Option Text
  | d :: rest => if c = d then some rest else none
  | [] => none

/-- The fraction of a second in microseconds; further digits are dropped. -/
def micros? (t : Text) : Option (Nat × Text) := do
  let rest ← afterChar? '.' t
  let digits := rest.takeWhile Char.isDigit
  if digits.isEmpty then none
  else
    let kept := digits.take 6
    pure (numberOf 10 (kept ++ List.replicate (6 - kept.length) '0'), rest.dropWhile Char.isDigit)

/-- A time of day; the seconds may be left out. -/
def time? (t : Text) : Option (Time × Text) := do
  let (hour, rest) ← fixedNumber? 2 0 23 t
  let rest ← afterChar? ':' rest
  let (minute, rest) ← fixedNumber? 2 0 59 rest
  match (afterChar? ':' rest).bind (fixedNumber? 2 0 59) with
  | none => pure (⟨hour, minute, 0, 0⟩, rest)
  | some (second, rest) =>
      let (micros, rest) := (micros? rest).getD (0, rest)
      pure (⟨hour, minute, second, micros⟩, rest)

/-- An offset from universal time, in minutes. -/
def offset? : Text → Option (Int × Text)
  | c :: rest =>
      if c = 'Z' ∨ c = 'z' then some (0, rest)
      else if c = '+' ∨ c = '-' then do
        let (hours, rest) ← fixedNumber? 2 0 23 rest
        let rest ← afterChar? ':' rest
        let (minutes, rest) ← fixedNumber? 2 0 59 rest
        let n : Int := hours * 60 + minutes
        pure (if c = '-' then -n else n, rest)
      else none
  | [] => none

/-- The date of a year from the month and the day that follow it. -/
def dateIn? (year : Nat) (t : Text) : Option (Date × Text) := do
  let rest ← afterChar? '-' t
  let (month, rest) ← fixedNumber? 2 1 12 rest
  let rest ← afterChar? '-' rest
  let (day, rest) ← fixedNumber? 2 1 31 rest
  pure (⟨year, month, day⟩, rest)

/-- A date as written, whether or not the month has that day. -/
def date? (t : Text) : Option (Date × Text) := do
  let (year, rest) ← fixedNumber? 4 0 9999 t
  dateIn? year rest

/-- How many days a month has. -/
def daysIn (year month : Nat) : Nat :=
  if month = 2 then
    if year % 4 = 0 ∧ (year % 100 ≠ 0 ∨ year % 400 = 0) then 29 else 28
  else if month = 4 ∨ month = 6 ∨ month = 9 ∨ month = 11 then 30
  else 31

/-- Whether the calendar has the date. -/
def Date.isValid (d : Date) : Bool := 1 ≤ d.year && d.day ≤ daysIn d.year d.month

/-- The time after a date, and the offset after that. -/
def timeAfterDate? : Text → Option ((Time × Option Int) × Text)
  | c :: rest =>
      if c = 'T' ∨ c = 't' ∨ c = ' ' then do
        let (time, rest) ← time? rest
        match offset? rest with
        | some (offset, rest) => pure ((time, some offset), rest)
        | none => pure ((time, none), rest)
      else none
  | [] => none

/-- The most digits that a decimal integer may have. -/
def digitLimit : Nat := 4300

/-- A number that was read up to `rest`, unless it is a decimal integer with too many digits. -/
def limited (t : Text) : Value × Text → Except Fault (Value × Text)
  | (.int n, rest) =>
      if digitLimit < (Text.consumed t rest).countP Char.isDigit then .error ⟨.tooManyDigits, t⟩
      else .ok (.int n, rest)
  | found => .ok found

/-- A number, a date, a time or a named floating-point value. -/
def scalar (t : Text) : Except Fault (Value × Text) :=
  match date? t with
  | some (date, rest) =>
      if !date.isValid then .error ⟨.date, t⟩
      else
        match timeAfterDate? rest with
        | some ((time, offset), rest) => .ok (.moment date time offset, rest)
        | none => .ok (.date date, rest)
  | none =>
      match time? t with
      | some (time, rest) => .ok (.time time, rest)
      | none =>
          match basedNumber? t, decimalNumber? t <|> namedFloat? t with
          | some found, _ => .ok found
          | none, some found => limited t found
          | none, none => .error ⟨.value, t⟩

end ShellDocs.Toml
